import Pebrel.Library.Text

/-!
# Encrypted packets

What is saved of a backup is serialised, encrypted with a key that Argon2id derives from the
passphrase, and stored as `PEBRBAK1 | salt | nonce | ciphertext` (`encrypted_backup.rs`). What is
encrypted with a passphrase is decrypted with it (`decryptJson_encryptJson`).

## The model

`serde_json`, `argon2` and `aes_gcm` are parameters, and what `getrandom` draws is an argument.
-/

namespace Pebrel.Backup

open Library List

abbrev Bytes := List UInt8

def magic : Bytes := "PEBRBAK1".toList.map fun c => .ofNat c.toNat

def saltLen : ℕ := 16

def nonceLen : ℕ := 12

inductive EncryptionError where
  | shortPassphrase
  | serialize
  | random
  | argon2
  | encryption
  | notABackup
  | authentication
  /-- The plaintext is no value of the type. -/
  | invalid
  deriving DecidableEq

/-- The salt and the nonce that are drawn. -/
structure Drawn where
  salt : Bytes
  nonce : Bytes
  length_salt : salt.length = saltLen
  length_nonce : nonce.length = nonceLen

/-- `serde_json` for the values of a type. -/
class SerdeJson (α : Type) where
  toVec : α → Option Bytes
  fromSlice : Bytes → Option α
  fromSlice_toVec {value : α} {bytes : Bytes} : toVec value = some bytes → fromSlice bytes = some value

/-- `argon2` and `aes_gcm`: what is encrypted has a tag, and is decrypted with the same key, nonce and
associated data. -/
class Cipher where
  deriveKey : Text → Bytes → Option Bytes
  encrypt (key nonce msg aad : Bytes) : Option Bytes
  decrypt (key nonce msg aad : Bytes) : Option Bytes
  encrypt_ne_nil {key nonce msg aad : Bytes} : encrypt key nonce msg aad ≠ some []
  decrypt_encrypt {key nonce msg aad ciphertext : Bytes} :
    encrypt key nonce msg aad = some ciphertext → decrypt key nonce ciphertext aad = some msg

section
variable [Cipher]

def encryptBytes (drawn : Option Drawn) (plaintext : Bytes) (passphrase : Text) : Except EncryptionError Bytes :=
  if passphrase.length < 8 then .error .shortPassphrase
  else
    match drawn with
    | none => .error .random
    | some drawn =>
      match Cipher.deriveKey passphrase drawn.salt with
      | none => .error .argon2
      | some key =>
        match Cipher.encrypt key drawn.nonce plaintext magic with
        | none => .error .encryption
        | some ciphertext => .ok (magic ++ drawn.salt ++ drawn.nonce ++ ciphertext)

def decryptBytes (packet : Bytes) (passphrase : Text) : Except EncryptionError Bytes :=
  if passphrase.length < 8 then .error .shortPassphrase
  else if packet.length ≤ magic.length + saltLen + nonceLen ∨ packet.take magic.length ≠ magic then .error .notABackup
  else
    match Cipher.deriveKey passphrase ((packet.drop magic.length).take saltLen) with
    | none => .error .argon2
    | some key =>
      match Cipher.decrypt key ((packet.drop (magic.length + saltLen)).take nonceLen)
          (packet.drop (magic.length + saltLen + nonceLen)) magic with
      | none => .error .authentication
      | some plaintext => .ok plaintext

theorem decryptBytes_encryptBytes {drawn : Option Drawn} {plaintext packet : Bytes} {passphrase : Text}
    (h : encryptBytes drawn plaintext passphrase = .ok packet) : decryptBytes packet passphrase = .ok plaintext := by
  unfold encryptBytes at h
  split at h
  · cases h
  rename_i hpass
  split at h
  · cases h
  rename_i drawn
  split at h
  · cases h
  rename_i key hkey
  split at h
  · cases h
  rename_i ciphertext hc
  cases h
  have hne : 0 < ciphertext.length := length_pos_iff.mpr fun hn => Cipher.encrypt_ne_nil (hn ▸ hc)
  obtain ⟨salt, nonce, hsalt, hnonce⟩ := drawn
  have hheader : magic.length + saltLen + nonceLen = (magic ++ salt ++ nonce).length := by
    rw [length_append, length_append, hsalt, hnonce]
  have hlong : ¬ (magic ++ salt ++ nonce ++ ciphertext).length ≤ magic.length + saltLen + nonceLen := by
    rw [hheader, length_append]
    omega
  have hmagic : (magic ++ salt ++ nonce ++ ciphertext).take magic.length = magic := by
    rw [append_assoc, append_assoc, take_left]
  have hs : ((magic ++ salt ++ nonce ++ ciphertext).drop magic.length).take saltLen = salt := by
    rw [append_assoc, append_assoc, drop_left, ← hsalt, take_left]
  have hn : ((magic ++ salt ++ nonce ++ ciphertext).drop (magic.length + saltLen)).take nonceLen = nonce := by
    rw [← hsalt, ← length_append, append_assoc, drop_left, ← hnonce, take_left]
  have hm : (magic ++ salt ++ nonce ++ ciphertext).drop (magic.length + saltLen + nonceLen) = ciphertext := by
    rw [hheader, drop_left]
  rw [decryptBytes, if_neg hpass, if_neg (not_or.mpr ⟨hlong, not_not.mpr hmagic⟩), hs, hkey, hn, hm]
  dsimp only
  rw [Cipher.decrypt_encrypt hc]

variable {α : Type} [SerdeJson α]

def encryptJson (drawn : Option Drawn) (value : α) (passphrase : Text) : Except EncryptionError Bytes :=
  match SerdeJson.toVec value with
  | none => .error .serialize
  | some plaintext => encryptBytes drawn plaintext passphrase

def decryptJson (packet : Bytes) (passphrase : Text) : Except EncryptionError α :=
  match decryptBytes packet passphrase with
  | .error e => .error e
  | .ok plaintext =>
    match SerdeJson.fromSlice plaintext with
    | none => .error .invalid
    | some value => .ok value

theorem length_of_encryptJson {drawn : Option Drawn} {value : α} {packet : Bytes} {passphrase : Text}
    (h : encryptJson drawn value passphrase = .ok packet) : ¬ passphrase.length < 8 := by
  intro hlt
  unfold encryptJson at h
  split at h
  · cases h
  · unfold encryptBytes at h
    rw [if_pos hlt] at h
    cases h

theorem decryptJson_encryptJson {drawn : Option Drawn} {value : α} {packet : Bytes} {passphrase : Text}
    (h : encryptJson drawn value passphrase = .ok packet) : decryptJson packet passphrase = .ok value := by
  unfold encryptJson at h
  split at h
  · cases h
  rename_i plaintext hv
  simp only [decryptJson, decryptBytes_encryptBytes h, SerdeJson.fromSlice_toVec hv]

end

end Pebrel.Backup
