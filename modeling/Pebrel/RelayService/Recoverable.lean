import Pebrel.RelayService.Install
import Mathlib.Data.Fintype.Basic

/-!
# Recovering from an installation that failed

An installation that fails before its first file, or after its record, is completed
by another one. One that fails between the two is stranded: there are files, so that
it is not installed again, and no record of them, so that it is not uninstalled
(`install_recoverable_iff`).
-/

namespace Pebrel.RelayService

open Library FileTree List Item
open FileSystem (hasEntries_iff tree_set)
open Fallible (bind_ok get_bind_apply)

/-! ### Paths -/

instance : Fintype Item := ⟨⟨Item.all, by decide⟩, fun item => by cases item <;> decide⟩

instance : Fintype ServiceManager := ⟨⟨([.systemd, .openRc] : List ServiceManager), by decide⟩, fun m => by cases m <;> decide⟩

section
variable {m : ServiceManager} {item item' : Item} {q : Path} {fs : Files}

theorem Item.mem_all : ∀ item : Item, item ∈ Item.all := by decide

theorem path_inj (h : item.path m = item'.path m) : item = item' := by
  revert m item item'
  decide

/-- No file is above another one. -/
theorem path_not_mem_parents : item.path m ∉ parents (item'.path m) := by
  revert m item item'
  decide

/-- No directory that is made is in the directory of the configuration. -/
theorem dropLast_of_mem_parents (h : q ∈ parents (item.path m)) : q.dropLast ≠ configDir := by
  have ha : ∀ (m : ServiceManager) (item : Item), ∀ q ∈ parents (item.path m), q.dropLast ≠ configDir := by decide
  exact ha m item q h

/-- A path is safe that no link is at, and none above. -/
theorem safe_of {path : Path} (hp : fs.tree path ≠ some .symlink) (hab : ∀ q ∈ parents path, fs.tree q ≠ some .symlink) :
    safe path fs = true := by
  rw [safe, Bool.not_eq_true', any_eq_false]
  intro q hq
  rw [decide_eq_true_eq]
  rcases mem_cons.mp hq with rfl | hq
  · exact hp
  · exact hab q hq

theorem not_symlink_of_free (h : fs.tree q = none ∨ fs.tree q = some .dir) : fs.tree q ≠ some .symlink := by
  rcases h with h | h
  · exact h ▸ nofun
  · exact h ▸ nofun

end

/-! ### States of an installation -/

variable (codec : Codec) (env : Environment)

/-- None of the files is there. -/
def Untouched (m : ServiceManager) (fs : Files) : Prop := ∀ item : Item, fs.tree (item.path m) = none

/-- There are files with these contents and a record of them. -/
def Holds (m : ServiceManager) (contents : Item → Bytes) (fs : Files) : Prop :=
  (∀ item ∈ owned, fs.tree (item.path m) = some (.file (contents item))) ∧
    fs.tree (Item.path m .record) = some (.file (codec.encode (recordOf codec m contents)))

/-- There are files, and no record that can be read. -/
def Stranded (m : ServiceManager) (fs : Files) : Prop :=
  (∃ item ∈ owned, fs.tree (item.path m) ≠ none) ∧
    ∀ bytes, fs.tree (Item.path m .record) = some (.file bytes) → codec.parse bytes = none

/-- Nothing is in the way of an installation. -/
structure Unobstructed (fs : Files) : Prop where
  source : env.source ≠ [] ∧ env.source.length ≤ limit ∧ codec.digest env.source = env.expectedSha256
  address : validAddress env.address = true
  alternate : env.behindLinks fs (alternate env.manager) = none
  above : ∀ item : Item, ∀ q ∈ parents (item.path env.manager), fs.tree q = none ∨ fs.tree q = some .dir
  configDir : fs.hasEntries configDir = false

/-- The calls between the first file and the record. -/
def lostCalls (m : ServiceManager) : List Call :=
  ([.write .privateKey, .sync .privateKey, .create .certificate, .write .certificate, .sync .certificate, .create .access, .write .access,
    .sync .access, .create .config, .write .config, .sync .config, .create .executable, .write .executable, .sync .executable,
    .permissions .executable, .create .service, .write .service, .sync .service] : List Call) ++
  ((if m = .openRc then [.permissions .service] else []) : List Call) ++ owned.map .readBack ++
  ([.create .record, .write .record] : List Call)

/-- What the format is relied on for, with a record: it is read as it was written, and not where it was cut off. -/
structure Codec.Reads (record : Manifest) : Prop where
  parse_encode : codec.parse (codec.encode record) = some record
  parse_truncated : ∀ bytes, bytes <+: codec.encode record → bytes ≠ codec.encode record → codec.parse bytes = none
  encode_ne : codec.encode record ≠ []
  encode_length : (codec.encode record).length ≤ 8192

/-- The record of the files. -/
def Environment.record : Manifest := recordOf codec env.manager env.contents

/-- The files are not too long to be read again. -/
def Environment.Bounded : Prop := ∀ item ∈ owned, (env.contents item).length ≤ limit

/-! ### Rules of the calls -/

section
variable {fault : Fault} {P : Files → Prop} {E : InstallError → Files → Prop}

theorem call_triple {c : Call} (h : ∀ s, P s → fault.hits c = true → E (.call c) s) :
    Fallible.Triple P (call fault c) (fun _ s => fault.hits c = false ∧ P s) E := by
  rw [call]
  split
  · rename_i hhits
    exact .fail fun s hs => h s hs hhits
  · rename_i hhits
    exact .pure fun s hs => ⟨eq_false_of_ne_true hhits, hs⟩

theorem ensure_triple {b : Bool} {reason : String} (h : ∀ s, P s → b = false → E (.refused reason.toList) s) :
    Fallible.Triple P (ensure b reason) (fun _ s => b = true ∧ P s) E := by
  rw [ensure]
  split
  · rename_i hb
    exact .pure fun s hs => ⟨hb, hs⟩
  · rename_i hb
    exact .fail fun s hs => h s hs (eq_false_of_ne_true hb)

end

/-! ### Writing the files -/

/-- What is written to each file. -/
def Environment.written : Item → Bytes
  | .record => codec.encode (env.record codec)
  | item => env.contents item

/-- These files have been written, and no others, and the directories are there. -/
structure Written (done : List Item) (s : Files) : Prop where
  files : ∀ item ∈ done, s.tree (item.path env.manager) = some (.file (env.written codec item))
  absent : ∀ item, item ∉ done → s.tree (item.path env.manager) = none
  above : ∀ item : Item, ∀ q ∈ parents (item.path env.manager), s.tree q = some .dir

section
variable {codec : Codec} {env : Environment} {fault : Fault} {E : InstallError → Files → Prop} {done : List Item} {item : Item} {s : Files}

section
variable (h : Written codec env done s)
include h

theorem Written.hasParent (item : Item) : hasParent (item.path env.manager) s = true := by
  have hm : ∀ (m : ServiceManager) (item : Item), (item.path m).dropLast ∈ parents (item.path m) := by decide
  have hd := h.above item _ (hm env.manager item)
  rw [RelayService.hasParent, decide_eq_true hd, Bool.or_true]

theorem Written.safe (item : Item) : safe (item.path env.manager) s = true := by
  refine safe_of ?_ fun q hq => not_symlink_of_free (.inr (h.above item q hq))
  by_cases hd : item ∈ done
  · exact h.files item hd ▸ nofun
  · exact h.absent item hd ▸ nofun

/-- One more file is written, or a part of it. -/
theorem Written.set (hi : item ∉ done) (bytes : Bytes) :
    (∀ other ∈ done, (s.set (item.path env.manager) (.file bytes)).tree (other.path env.manager) = some (.file (env.written codec other))) ∧
      (∀ other, other ∉ done → other ≠ item → (s.set (item.path env.manager) (.file bytes)).tree (other.path env.manager) = none) ∧
      ∀ other : Item, ∀ q ∈ parents (other.path env.manager), (s.set (item.path env.manager) (.file bytes)).tree q = some .dir := by
  refine ⟨fun other ho => ?_, fun other ho hne => ?_, fun other q hq => ?_⟩
  · have hne : ¬other.path env.manager = item.path env.manager := fun heq => by
      obtain rfl := path_inj heq
      exact hi ho
    rw [tree_set, if_neg hne]
    exact h.files other ho
  · rw [tree_set, if_neg fun heq => hne (path_inj heq)]
    exact h.absent other ho
  · rw [tree_set, if_neg fun heq => path_not_mem_parents (heq ▸ hq)]
    exact h.above other q hq

theorem Written.cons (hi : item ∉ done) :
    Written codec env (item :: done) (s.set (item.path env.manager) (.file (env.written codec item))) := by
  obtain ⟨hfs, ha, hab⟩ := h.set hi (env.written codec item)
  refine ⟨fun other ho => ?_, fun other ho => ?_, hab⟩
  · rcases mem_cons.mp ho with rfl | ho
    · rw [tree_set, if_pos rfl]
    · exact hfs other ho
  · rw [mem_cons, not_or] at ho
    exact ha other ho.2 ho.1

/-- Files without a record are stranded. -/
theorem Written.stranded (hr : .record ∉ done) (hs : ∃ item ∈ owned, item ∈ done) : Stranded codec env.manager s := by
  obtain ⟨item, ho, hd⟩ := hs
  refine ⟨⟨item, ho, by rw [h.files item hd]; exact nofun⟩, fun bytes hbs => ?_⟩
  rw [h.absent _ hr] at hbs
  exact nomatch hbs

end

theorem take_truncated (bytes : Bytes) (hne : bytes ≠ []) (n : ℕ) :
    bytes.take (min n (bytes.length - 1)) <+: bytes ∧ bytes.take (min n (bytes.length - 1)) ≠ bytes := by
  refine ⟨List.take_prefix _ _, fun heq => ?_⟩
  have hl := congrArg length heq
  have hp := length_pos_iff.mpr hne
  rw [length_take] at hl
  omega

/-- A file that was cut off strands those before it, and itself. -/
theorem Written.stranded_of_torn (hr : codec.Reads (env.record codec)) (h : Written codec env done s) (hi : item ∉ done)
    (hrec : .record ∉ done) (hs : (∃ item ∈ owned, item ∈ done) ∨ item ∈ owned) (n : ℕ) :
    Stranded codec env.manager (s.set (item.path env.manager)
      (.file ((env.written codec item).take (min n ((env.written codec item).length - 1))))) := by
  obtain ⟨hfs, ha, -⟩ := h.set hi ((env.written codec item).take (min n ((env.written codec item).length - 1)))
  refine ⟨?_, fun bytes hbs => ?_⟩
  · rcases hs with ⟨other, ho, hd⟩ | ho
    · exact ⟨other, ho, by rw [hfs other hd]; exact nofun⟩
    · exact ⟨item, ho, by rw [tree_set, if_pos rfl]; exact nofun⟩
  · by_cases heq : .record = item
    · subst heq
      rw [tree_set, if_pos rfl] at hbs
      obtain rfl := Node.file.inj (Option.some.inj hbs)
      obtain ⟨htk, hne⟩ := take_truncated _ hr.encode_ne n
      exact hr.parse_truncated _ htk hne
    · rw [ha _ hrec heq] at hbs
      exact nomatch hbs

theorem writeNewPrivate_triple (hi : item ∉ done)
    (hcr : ∀ s, Written codec env done s → fault.hits (.create item) = true → E (.call (.create item)) s)
    (htorn : ∀ s n, Written codec env done s → fault.hits (.write item) = true → E (.call (.write item)) (s.set (item.path env.manager)
      (.file ((env.written codec item).take (min n ((env.written codec item).length - 1))))))
    (hsync : ∀ s, Written codec env (item :: done) s → fault.hits (.sync item) = true → E (.call (.sync item)) s) :
    Fallible.Triple (Written codec env done) (writeNewPrivate fault item (item.path env.manager) (env.written codec item))
      (fun _ s => (∀ c ∈ [.create item, .write item, .sync item], fault.hits c = false) ∧ Written codec env (item :: done) s) E := by
  rw [writeNewPrivate]
  refine .get_bind fun s hs => ?_
  refine .bind_and (ensure_triple fun s' hs' hf => ?_) fun _ _ => ?_
  · rw [hs.absent item hi, hs.hasParent item] at hf
    exact nomatch hf
  refine .bind_and (call_triple fun s' hs' hhits => hcr s' (hs' ▸ hs) hhits) fun _ hn => ?_
  split
  · rename_i hhits
    refine .bind (Q := fun _ s' => E (.call (.write item)) s') (.modify fun s' hs' => ?_) fun _ => .fail fun s' hs' => hs'
    exact htorn s' _ (hs' ▸ hs) hhits
  rename_i hnow
  refine .bind (Q := fun _ => Written codec env (item :: done)) (.modify fun s' hs' => (hs' ▸ hs).cons hi) fun _ => ?_
  refine (call_triple hsync).post fun _ s' ⟨hnos, hw⟩ => ⟨?_, hw⟩
  intro c hc
  simp only [mem_cons, not_mem_nil, or_false] at hc
  rcases hc with rfl | rfl | rfl
  · exact hn
  · exact eq_false_of_ne_true hnow
  · exact hnos

end

/-! ### How an installation ends -/

section
variable (codec : Codec) (env : Environment) (fault : Fault) (t : Files)

/-- The error that an installation from `t` ends with, and the state that it leaves. -/
def Ends : InstallError → Files → Prop
  | .refused _, s => Untouched env.manager s ∧ ¬Unobstructed codec env t
  | .call c, s => fault.hits c = true ∧
      if c ∈ lostCalls env.manager then Stranded codec env.manager s ∧ Unobstructed codec env t
      else Untouched env.manager s ∨ Holds codec env.manager env.contents s ∧ Unobstructed codec env t

/-- No call before a state has failed. -/
def Passed (calls : List Call) : Prop := ∀ c ∈ calls, fault.hits c = false

end

section
variable {codec : Codec} {env : Environment} {fault : Fault} {t : Files} {done : List Item} {item : Item} {s : Files} {c : Call}

theorem Ends.lost (ho : Unobstructed codec env t) (hs : Stranded codec env.manager s) (hc : c ∈ lostCalls env.manager)
    (hhits : fault.hits c = true) : Ends codec env fault t (.call c) s := by
  refine ⟨hhits, ?_⟩
  rw [if_pos hc]
  exact ⟨hs, ho⟩

theorem Ends.kept (hs : Untouched env.manager s ∨ Holds codec env.manager env.contents s ∧ Unobstructed codec env t)
    (hc : ∀ m, c ∉ lostCalls m)
    (hhits : fault.hits c = true) : Ends codec env fault t (.call c) s := by
  refine ⟨hhits, ?_⟩
  rw [if_neg (hc _)]
  exact hs

theorem mem_lostCalls_of_owned : ∀ (m : ServiceManager), ∀ item ∈ owned,
    .write item ∈ lostCalls m ∧ .sync item ∈ lostCalls m ∧ .readBack item ∈ lostCalls m ∧
      (item ≠ .privateKey → Call.create item ∈ lostCalls m) := by
  decide

/-- A file other than the first one and the record is written. -/
theorem write_triple (item : Item) (hrds : codec.Reads (env.record codec)) (ho : Unobstructed codec env t)
    (hi : item ∉ done) (hr : .record ∉ done)
    (hown : item ∈ owned) (hf : item ≠ .privateKey) (hsome : ∃ item ∈ owned, item ∈ done) :
    Fallible.Triple (Written codec env done) (writeNewPrivate fault item (item.path env.manager) (env.written codec item))
      (fun _ s => Passed fault [.create item, .write item, .sync item] ∧ Written codec env (item :: done) s) (Ends codec env fault t) := by
  obtain ⟨hwr, hsync, -, hcr⟩ := mem_lostCalls_of_owned env.manager item hown
  refine writeNewPrivate_triple hi (fun s hs hhits => ?_) (fun s n hs hhits => ?_) fun s hs hhits => ?_
  · exact .lost ho (hs.stranded hr hsome) (hcr hf) hhits
  · exact .lost ho (hs.stranded_of_torn hrds hi hr (.inl hsome) n) hwr hhits
  · refine .lost ho (hs.stranded ?_ ⟨item, hown, mem_cons_self⟩) hsync hhits
    rintro (_ | ⟨_, h⟩)
    · exact absurd hown (by decide)
    · exact hr h

/-- The first file is written. -/
theorem write_first_triple (hr : codec.Reads (env.record codec)) (ho : Unobstructed codec env t) :
    Fallible.Triple (Written codec env []) (writeNewPrivate fault .privateKey (Item.path env.manager .privateKey)
      (env.written codec .privateKey))
      (fun _ s => Passed fault [.create .privateKey, .write .privateKey, .sync .privateKey] ∧ Written codec env [.privateKey] s)
      (Ends codec env fault t) := by
  obtain ⟨hwr, hsync, -, -⟩ := mem_lostCalls_of_owned env.manager .privateKey (by decide)
  refine writeNewPrivate_triple (by decide) (fun s hs hhits => ?_) (fun s n hs hhits => ?_) fun s hs hhits => ?_
  · exact .kept (.inl fun item => hs.absent item not_mem_nil) (by decide) hhits
  · exact .lost ho (hs.stranded_of_torn hr (by decide) (by decide) (.inr (by decide)) n) hwr hhits
  · exact .lost ho (hs.stranded (by decide) ⟨.privateKey, by decide, by decide⟩) hsync hhits

/-- A call between the files strands them. -/
theorem call_lost_triple (ho : Unobstructed codec env t) (hr : .record ∉ done) (hsome : ∃ item ∈ owned, item ∈ done)
    (hc : c ∈ lostCalls env.manager) :
    Fallible.Triple (Written codec env done) (call fault c) (fun _ s => Passed fault [c] ∧ Written codec env done s)
      (Ends codec env fault t) := by
  refine (call_triple fun s hs hhits => .lost ho (hs.stranded hr hsome) hc hhits).post fun _ s hs => ⟨?_, hs.2⟩
  intro c' hc'
  rw [mem_singleton.mp hc']
  exact hs.1

/-- The four files of the configuration. -/
def configured : List Item := [.config, .access, .certificate, .privateKey]

theorem Written.safe_configDir (h : Written codec env done s) : RelayService.safe configDir s = true := by
  have hm : ∀ m : ServiceManager, ∀ q ∈ configDir :: parents configDir, q ∈ parents (Item.path m .config) := by decide
  have hd (q : Path) (hq : q ∈ configDir :: parents configDir) := h.above .config q (hm env.manager q hq)
  exact safe_of (not_symlink_of_free (.inr (hd _ mem_cons_self))) fun q hq =>
    not_symlink_of_free (.inr (hd q (mem_cons_of_mem _ hq)))

theorem initializeDirectory_triple (hr : codec.Reads (env.record codec))
    (ho : validAddress env.address = true → t.hasEntries configDir = false → Unobstructed codec env t) :
    Fallible.Triple (fun s => Written codec env [] s ∧ s.hasEntries configDir = t.hasEntries configDir) (initializeDirectory fault env)
      (fun _ s => (Passed fault (configured.flatMap fun item => [.create item, .write item, .sync item]) ∧ Unobstructed codec env t) ∧
        Written codec env configured s) (Ends codec env fault t) := by
  have hu {s : Files} (hs : Written codec env [] s) : Untouched env.manager s := fun item => hs.absent item not_mem_nil
  rw [initializeDirectory]
  refine .get_bind fun s hs => ?_
  refine .bind_and (ensure_triple fun s' hs' hf => ?_) fun _ haddr => ?_
  · subst hs'
    exact ⟨hu hs.1, fun h => absurd (h.address.symm.trans hf) (by decide)⟩
  refine .bind_and (ensure_triple fun s' _ hf => ?_) fun _ _ => ?_
  · exact absurd (hs.1.safe_configDir.symm.trans hf) (by decide)
  refine .bind_and (call_triple fun s' hs' => .kept (.inl (hu (hs' ▸ hs.1))) (by decide)) fun _ _ => ?_
  refine .bind_and (ensure_triple fun s' hs' hf => ?_) fun _ he => ?_
  · subst hs'
    rw [hs.2] at hf
    exact ⟨hu hs.1, fun h => absurd h.configDir (by simpa using hf)⟩
  rw [hs.2, Bool.not_eq_true'] at he
  have ho := ho haddr he
  refine .bind_and (call_triple fun s' hs' => .kept (.inl (hu (hs' ▸ hs.1))) (by decide)) fun _ _ => ?_
  refine .bind_and (call_triple fun s' hs' => .kept (.inl (hu (hs' ▸ hs.1))) (by decide)) fun _ _ => ?_
  refine .of_pre ?_ fun s' hs' => show Written codec env [] s' from hs' ▸ hs.1
  refine .bind_and (write_first_triple hr ho) fun _ hk => ?_
  refine .bind_and (write_triple .certificate hr ho (by decide) (by decide) (by decide) (by decide)
    ⟨.privateKey, by decide, by decide⟩) fun _ hcer => ?_
  refine .bind_and (write_triple .access hr ho (by decide) (by decide) (by decide) (by decide)
    ⟨.privateKey, by decide, by decide⟩) fun _ ha => ?_
  refine (write_triple .config hr ho (by decide) (by decide) (by decide) (by decide)
    ⟨.privateKey, by decide, by decide⟩).post fun _ s hs => ⟨⟨?_, ho⟩, hs.2⟩
  intro c hc
  obtain ⟨item, hi, hc⟩ := mem_flatMap.mp hc
  simp only [configured, mem_cons, not_mem_nil, or_false] at hi
  rcases hi with rfl | rfl | rfl | rfl
  · exact hs.1 c hc
  · exact ha c hc
  · exact hcer c hc
  · exact hk c hc

theorem Passed.append {calls calls' : List Call} (h : Passed fault calls) (h' : Passed fault calls') : Passed fault (calls ++ calls') :=
  fun c hc => (mem_append.mp hc).elim (h c) (h' c)

/-- The files that are written before the record are read back. -/
theorem readBack_triple (ho : Unobstructed codec env t) (items : List Item) (hi : ∀ item ∈ items, item ∈ owned)
    (hd : ∀ item ∈ owned, item ∈ done) (hr : .record ∉ done) :
    Fallible.Triple (Written codec env done) (readBack codec fault env items) (fun files s => (Passed fault (items.map .readBack) ∧
        files = items.map fun item => (item.path env.manager, codec.digest (env.written codec item))) ∧ Written codec env done s)
      (Ends codec env fault t) := by
  have hsome : ∃ item ∈ owned, item ∈ done := ⟨.config, by decide, hd .config (by decide)⟩
  induction items with
  | nil => exact .pure fun s hs => ⟨⟨nofun, rfl⟩, hs⟩
  | cons item items ih =>
    have hown := hi item mem_cons_self
    rw [readBack, ensureSafe]
    refine .bind (Q := fun _ => Written codec env done) ?_ fun _ => ?_
    · refine .get_bind fun s hs => ?_
      refine (ensure_triple fun s' _ hf => absurd ((hs.safe item).symm.trans hf) (by decide)).post fun _ s' hs' => hs'.2 ▸ hs
    refine .bind_and (call_lost_triple ho hr hsome (mem_lostCalls_of_owned env.manager item hown).2.2.1) fun _ hp => ?_
    refine .get_bind fun s hs => ?_
    rw [hs.files item (hd item hown)]
    dsimp only
    refine .of_pre ?_ fun s' hs' => show Written codec env done s' from hs' ▸ hs
    refine .bind_and (ih fun other hoth => hi other (mem_cons_of_mem _ hoth)) fun files hfs => ?_
    refine .pure fun s' hs' => ⟨⟨?_, by rw [hfs.2]; rfl⟩, hs'⟩
    exact hp.append hfs.1

theorem permissions_mem_lostCalls : ∀ m : ServiceManager,
    .permissions .executable ∈ lostCalls m ∧ (m = .openRc → .permissions .service ∈ lostCalls m) := by
  decide

theorem writeExecutable_triple (hr : codec.Reads (env.record codec)) (ho : Unobstructed codec env t) :
    Fallible.Triple (Written codec env configured) (writeExecutable fault env)
      (fun _ s => Passed fault [.create .executable, .write .executable, .sync .executable, .permissions .executable] ∧
        Written codec env (.executable :: configured) s) (Ends codec env fault t) := by
  rw [writeExecutable]
  refine .bind_and (write_triple .executable hr ho (by decide) (by decide) (by decide) (by decide)
    ⟨.config, by decide, by decide⟩) fun _ hwr => ?_
  refine (call_lost_triple ho (by decide) ⟨.config, by decide, by decide⟩ (permissions_mem_lostCalls _).1).post
    fun _ s hs => ⟨hwr.append hs.1, hs.2⟩

theorem writeService_triple (hr : codec.Reads (env.record codec)) (ho : Unobstructed codec env t) :
    Fallible.Triple (Written codec env (.executable :: configured)) (writeService fault env env.definition)
      (fun _ s => (Passed fault [.create .service, .write .service, .sync .service] ∧
          (env.manager = .openRc → Passed fault [.permissions .service])) ∧
        Written codec env (.service :: .executable :: configured) s) (Ends codec env fault t) := by
  rw [writeService]
  refine .bind_and (write_triple .service hr ho (by decide) (by decide) (by decide) (by decide)
    ⟨.config, by decide, by decide⟩) fun _ hwr => ?_
  split
  · rename_i hm
    refine (call_lost_triple ho (by decide) ⟨.config, by decide, by decide⟩ ((permissions_mem_lostCalls _).2 hm)).post
      fun _ s hs => ⟨⟨hwr, fun _ => hs.1⟩, hs.2⟩
  · rename_i hm
    exact .pure fun s hs => ⟨⟨hwr, fun h => absurd h hm⟩, hs⟩

/-- All files and the record. -/
def complete : List Item := [.record, .service, .executable] ++ configured

theorem Written.holds (h : Written codec env complete s) : Holds codec env.manager env.contents s := by
  refine ⟨fun item hi => ?_, h.files .record (by decide)⟩
  have hm : ∀ item ∈ owned, item ∈ complete ∧ item ≠ .record := by decide
  obtain ⟨hd, hne⟩ := hm item hi
  rw [h.files item hd]
  cases item <;> first | rfl | exact absurd rfl hne

theorem writeRecord_triple (hr : codec.Reads (env.record codec)) (ho : Unobstructed codec env t) :
    Fallible.Triple (Written codec env (.service :: .executable :: configured)) (writeRecord codec fault env)
      (fun _ s => Passed fault (owned.map Call.readBack ++ [.create .record, .write .record]) ∧ Written codec env complete s)
      (Ends codec env fault t) := by
  rw [writeRecord]
  refine .bind_and (readBack_triple ho owned (fun _ => id) (by decide) (by decide)) fun files hfs => ?_
  have hcons : codec.encode ⟨product, 1, env.manager, .ofEntries files⟩ = env.written codec .record := by
    rw [hfs.2]
    rfl
  have hm : ∀ m : ServiceManager, .create .record ∈ lostCalls m ∧ .write .record ∈ lostCalls m := by decide
  obtain ⟨hcr, hwr⟩ := hm env.manager
  have hsome : ∃ item ∈ owned, item ∈ service :: .executable :: configured := ⟨.config, by decide, by decide⟩
  rw [hcons]
  refine (writeNewPrivate_triple (by decide) (fun s hs => .lost ho (hs.stranded (by decide) hsome) hcr)
    (fun s n hs => .lost ho (hs.stranded_of_torn hr (by decide) (by decide) (.inl hsome) n) hwr)
    fun s hs => .kept (.inr ⟨hs.holds, ho⟩) (by decide)).post fun _ s hs => ⟨hfs.1.append fun c hc => ?_, hs.2⟩
  refine hs.1 c ?_
  rcases mem_cons.mp hc with rfl | hc
  · exact mem_cons_self
  · exact mem_cons_of_mem _ (mem_cons.mpr (.inl (mem_singleton.mp hc)))

theorem start_triple (ho : Unobstructed codec env t) : Fallible.Triple (Written codec env complete) (start fault)
    (fun _ => Written codec env complete)
    (Ends codec env fault t) := by
  have hcall (c : Call) (hc : ∀ m, c ∉ lostCalls m) :
      Fallible.Triple (Written codec env complete) (call fault c) (fun _ => Written codec env complete) (Ends codec env fault t) :=
    (call_triple fun s hs => .kept (.inr ⟨hs.holds, ho⟩) hc).post fun _ _ hs => hs.2
  rw [start]
  refine (hcall _ (by decide)).bind fun _ => (hcall _ (by decide)).bind fun _ => hcall _ (by decide)

/-! ### Before the files -/

/-- Directories above the files have been made, these among them. -/
structure Made (m : ServiceManager) (t : Files) (ds : List Path) (s : Files) : Prop where
  change : ∀ q, s.tree q = t.tree q ∨ t.tree q = none ∧ s.tree q = some .dir ∧ ∃ item : Item, q ∈ parents (item.path m)
  made : ∀ q ∈ ds, s.tree q = some .dir

section
variable {ds : List Path} {p : Path} {m : ServiceManager} {q : Path}

theorem Made.untouched (h : Made env.manager t ds s) (ht : Untouched env.manager t) : Untouched env.manager s := by
  intro item
  rcases h.change (item.path env.manager) with heq | ⟨-, -, other, hm⟩
  · exact heq.trans (ht item)
  · exact absurd hm path_not_mem_parents

theorem Made.hasEntries (h : Made env.manager t ds s) : s.hasEntries configDir = t.hasEntries configDir := by
  have hsm (x : String) : s.tree (configDir ++ [x]) = t.tree (configDir ++ [x]) := by
    rcases h.change (configDir ++ [x]) with heq | ⟨-, -, item, hm⟩
    · exact heq
    · exact absurd (dropLast_concat ..) (dropLast_of_mem_parents hm)
  rw [Bool.eq_iff_iff, hasEntries_iff, hasEntries_iff]
  simp only [hsm]

theorem createDirAll_triple {directory : Directory} (ht : Untouched env.manager t)
    (hp : ∀ q ∈ parents p ++ [p], ∃ item : Item, q ∈ parents (item.path env.manager)) :
    Fallible.Triple (Made env.manager t ds) (createDirAll fault directory p)
      (fun _ s => (∀ q ∈ parents p ++ [p], t.tree q = none ∨ t.tree q = some .dir) ∧ Made env.manager t (parents p ++ [p] ++ ds) s)
      (Ends codec env fault t) := by
  have hk : ∀ m, .createDir directory ∉ lostCalls m := by cases directory <;> decide
  intro s hs
  obtain ⟨fs', ok, hcr⟩ : ∃ fs' ok, s.createDirAll (if fault.hits (.createDir directory) then fault.map Prod.snd else none) p = (fs', ok) :=
    ⟨_, _, rfl⟩
  obtain ⟨hc, hmade, hfail⟩ := FileSystem.createDirAll_spec hcr
  have hmade' : Made env.manager t ds fs' := by
    refine ⟨fun q => ?_, fun q hq => ?_⟩
    · rcases hc q with heq | ⟨hm, hnone, hd⟩
      · rw [heq]
        exact hs.change q
      · rcases hs.change q with heq | ⟨-, hd', -⟩
        · exact .inr ⟨heq ▸ hnone, hd, hp q hm⟩
        · exact absurd (hnone.symm.trans hd') nofun
    · rcases hc q with heq | ⟨-, -, hd⟩
      · exact heq.trans (hs.made q hq)
      · exact hd
  rw [createDirAll]
  simp only [hcr]
  cases ok with
  | true =>
    have ha : Made env.manager t (parents p ++ [p] ++ ds) fs' :=
      ⟨hmade'.change, fun q hq => (mem_append.mp hq).elim (hmade rfl q) (hmade'.made q)⟩
    have hf (q : Path) (hq : q ∈ parents p ++ [p]) : t.tree q = none ∨ t.tree q = some .dir := by
      rcases hmade'.change q with heq | ⟨hnone, -⟩
      · exact .inr (heq.symm.trans (hmade rfl q hq))
      · exact .inl hnone
    have hcall : Fallible.Triple (Made env.manager t (parents p ++ [p] ++ ds)) (call fault (.createDir directory))
        (fun _ s => fault.hits (.createDir directory) = false ∧ Made env.manager t (parents p ++ [p] ++ ds) s) (Ends codec env fault t) :=
      call_triple fun s hs => .kept (.inl (hs.untouched ht)) hk
    have hcall := hcall fs' ha
    dsimp only
    split
    · rename_i heq
      rw [heq] at hcall
      exact ⟨hf, hcall.2⟩
    · rename_i heq
      rw [heq] at hcall
      exact hcall
  | false =>
    dsimp only
    by_cases hhits : fault.hits (.createDir directory) = true
    · rw [if_pos hhits]
      exact .kept (.inl (hmade'.untouched ht)) hk hhits
    rw [if_neg hhits] at hfail ⊢
    obtain ⟨q, hq, n, hn, hne⟩ := hfail rfl rfl
    refine ⟨hmade'.untouched ht, fun ho => ?_⟩
    obtain ⟨item, hm⟩ := hp q hq
    rcases hs.change q with heq | ⟨-, hd, -⟩
    · rcases ho.above item q hm with hnone | hd
      · exact absurd (hn.symm.trans (heq.trans hnone)) nofun
      · exact hne (Option.some.inj (hn.symm.trans (heq.trans hd)))
    · exact hne (Option.some.inj (hn.symm.trans hd))

/-- The directories of all files. -/
def directories (m : ServiceManager) : List Path :=
  parents configDir ++ [configDir] ++ (parents (Item.path m .service).dropLast ++ [(Item.path m .service).dropLast] ++
    (parents (Item.path m .executable).dropLast ++ [(Item.path m .executable).dropLast] ++ []))

theorem mem_directories (h : q ∈ parents (item.path m)) : q ∈ directories m := by
  have ha : ∀ (m : ServiceManager) (item : Item), ∀ q ∈ parents (item.path m), q ∈ directories m := by decide
  exact ha m item q h

theorem exists_item_above (h : q ∈ directories m) : ∃ item : Item, q ∈ parents (item.path m) := by
  have ha : ∀ m : ServiceManager, ∀ q ∈ directories m, ∃ item : Item, q ∈ parents (item.path m) := by decide
  exact ha m q h

theorem makeDirectories_triple (ht : Untouched env.manager t) : Fallible.Triple (fun s => s = t) (makeDirectories fault env)
      (fun _ s => (∀ item : Item, ∀ q ∈ parents (item.path env.manager), t.tree q = none ∨ t.tree q = some .dir) ∧
        Written codec env [] s ∧ s.hasEntries configDir = t.hasEntries configDir) (Ends codec env fault t) := by
  rw [makeDirectories]
  refine .of_pre ?_ fun s hs => show Made env.manager t [] s from hs ▸ ⟨fun _ => .inl rfl, nofun⟩
  refine .bind_and (createDirAll_triple ht fun q hq => exists_item_above ?_) fun _ hf => ?_
  · exact mem_append_right _ (mem_append_right _ (mem_append_left _ hq))
  refine .bind_and (call_triple fun s hs => .kept (.inl (hs.untouched ht)) (by decide)) fun _ _ => ?_
  refine .bind_and (createDirAll_triple ht fun q hq => exists_item_above ?_) fun _ hf' => ?_
  · exact mem_append_right _ (mem_append_left _ hq)
  refine (createDirAll_triple ht fun q hq => exists_item_above ?_).post fun _ s hs => ?_
  · exact mem_append_left _ hq
  obtain ⟨hf'', hmade⟩ := hs
  refine ⟨fun item q hq => ?_, ⟨nofun, fun item _ => hmade.untouched ht item, fun item q hq => hmade.made q (mem_directories hq)⟩,
    hmade.hasEntries⟩
  rcases mem_append.mp (mem_directories hq) with hm | hm
  · exact hf'' q hm
  rcases mem_append.mp hm with hm | hm
  · exact hf' q hm
  · rw [append_nil] at hm
    exact hf q hm

/-- A path above which nothing is but directories is safe. -/
theorem Unobstructed.safe (h : Unobstructed codec env t) (ht : Untouched env.manager t) (item : Item) :
    RelayService.safe (item.path env.manager) t = true :=
  safe_of (ht item ▸ nofun) fun q hq => not_symlink_of_free (h.above item q hq)

section
variable (ht : Untouched env.manager t)
include ht

theorem ensureSafe_triple (item : Item) :
    Fallible.Triple (fun s => s = t) (ensureSafe (item.path env.manager)) (fun _ s => s = t) (Ends codec env fault t) := by
  refine .get_bind fun s hs => ?_
  subst hs
  refine (ensure_triple fun s' hs' hf => ?_).post fun _ s' hs' => hs'.2
  rw [hs']
  exact ⟨ht, fun ho => absurd ((ho.safe ht item).symm.trans hf) (by decide)⟩

theorem checkAbsent_triple (items : List Item) :
    Fallible.Triple (fun s => s = t) (checkAbsent env items) (fun _ s => s = t) (Ends codec env fault t) := by
  induction items with
  | nil => exact .pure fun _ => id
  | cons item items ih =>
    rw [checkAbsent]
    refine (ensureSafe_triple ht item).bind fun _ => .get_bind fun s hs => ?_
    subst hs
    refine .bind_and (ensure_triple fun s' _ hf => ?_) fun _ _ => ih
    exact absurd (ht item) (of_decide_eq_false hf)

theorem checkConfigDir_triple : Fallible.Triple (fun s => s = t) (checkConfigDir fault) (fun _ s => s = t) (Ends codec env fault t) := by
  have hab : ∀ m, configDir ∈ parents (Item.path m .config) := by decide
  refine .get_bind fun s hs => ?_
  subst hs
  split
  · exact .pure fun _ => id
  rename_i hsome
  refine .bind_and (call_triple fun s' hs' => .kept (.inl (hs' ▸ ht)) (by decide)) fun _ _ => ?_
  refine .bind_and (ensure_triple fun s' hs' hf => ⟨hs' ▸ ht, fun ho => ?_⟩) fun _ _ => ?_
  · rcases ho.above .config _ (hab _) with hn | hd
    · exact hsome hn
    · exact of_decide_eq_false hf hd
  refine (ensure_triple fun s' hs' hf => ⟨hs' ▸ ht, fun ho => ?_⟩).post fun _ s' hs' => hs'.2
  exact absurd ho.configDir (by simpa using hf)

theorem preflight_triple :
    Fallible.Triple (fun s => s = t) (preflight fault env) (fun _ s => env.behindLinks t (alternate env.manager) = none ∧ s = t)
      (Ends codec env fault t) := by
  have hcall (c : Call) (hc : ∀ m, c ∉ lostCalls m) :
      Fallible.Triple (fun s => s = t) (call fault c) (fun _ s => s = t) (Ends codec env fault t) :=
    (call_triple fun s hs => .kept (.inl (hs ▸ ht)) hc).post fun _ _ hs => hs.2
  rw [preflight]
  refine (checkAbsent_triple ht owned).bind fun _ => (hcall _ (by decide)).bind fun _ => .get_bind fun s hs => ?_
  subst hs
  refine .bind_and (ensure_triple fun s' hs' hf => ⟨hs' ▸ ht, fun ho => ?_⟩) fun _ ha => ?_
  · rw [ho.alternate] at hf
    exact nomatch hf
  refine (hcall _ (by decide)).bind fun _ => (hcall _ (by decide)).bind fun _ => ?_
  refine (checkConfigDir_triple ht).post fun _ s' hs' => ⟨Option.isNone_iff_eq_none.mp ha, hs'⟩

end

theorem passed_lostCalls (hcon : Passed fault (configured.flatMap fun item => [.create item, .write item, .sync item]))
    (he : Passed fault [.create .executable, .write .executable, .sync .executable, .permissions .executable])
    (hs : Passed fault [.create .service, .write .service, .sync .service])
    (hper : m = .openRc → Passed fault [.permissions .service])
    (hr : Passed fault (owned.map .readBack ++ [.create .record, .write .record])) : Passed fault (lostCalls m) := by
  have ha (hp : Passed fault (if m = .openRc then [.permissions .service] else [])) : Passed fault (lostCalls m) := by
    have hsub : ∀ c ∈ lostCalls m, c ∈ (configured.flatMap fun item => ([.create item, .write item, .sync item] : List Call)) ++
        ([.create .executable, .write .executable, .sync .executable, .permissions .executable] : List Call) ++
        ([.create .service, .write .service, .sync .service] : List Call) ++ (if m = .openRc then [.permissions .service] else []) ++
        (owned.map .readBack ++ ([.create .record, .write .record] : List Call)) := by
      cases m <;> decide
    intro c hc
    exact (((hcon.append he).append hs).append hp).append hr c (hsub c hc)
  refine ha ?_
  split
  · rename_i hm
    exact hper hm
  · exact nofun

/-- **How an installation ends** where none of the files is there. -/
theorem install_triple (hr : codec.Reads (env.record codec)) (ht : Untouched env.manager t) :
    Fallible.Triple (fun s => s = t) (install codec fault env)
      (fun _ s => Passed fault (lostCalls env.manager) ∧ Holds codec env.manager env.contents s) (Ends codec env fault t) := by
  rw [install]
  refine .bind_and (call_triple fun s hs => .kept (.inl (hs ▸ ht)) (by decide)) fun _ _ => ?_
  refine .bind_and (ensure_triple fun s hs hf => ⟨hs ▸ ht, fun ho => ?_⟩) fun _ hsrc => ?_
  · rw [decide_eq_true ho.source.1, decide_eq_true ho.source.2.1, decide_eq_true ho.source.2.2] at hf
    exact nomatch hf
  refine (ensureSafe_triple ht .executable).bind fun _ => (ensureSafe_triple ht .service).bind fun _ =>
    (ensureSafe_triple ht .record).bind fun _ => .get_bind fun s hs => ?_
  subst hs
  rw [if_neg (not_not.mpr (ht .record))]
  refine .bind_and (preflight_triple ht) fun _ ha => ?_
  refine .bind_and (makeDirectories_triple ht) fun _ hab => ?_
  simp only [Bool.and_eq_true, decide_eq_true_eq] at hsrc
  refine .bind_and (initializeDirectory_triple hr fun haddr he =>
    ⟨⟨hsrc.1.1, hsrc.1.2, hsrc.2⟩, haddr, ha, hab, he⟩) fun _ hc => ?_
  obtain ⟨hc, ho⟩ := hc
  refine .bind_and (writeExecutable_triple hr ho) fun _ hexe => ?_
  refine .bind_and (writeService_triple hr ho) fun _ hser => ?_
  refine .bind_and (writeRecord_triple hr ho) fun _ hrec => ?_
  refine (start_triple ho).post fun _ s' hs' => ⟨?_, hs'.holds⟩
  exact passed_lostCalls hc hexe hser.1 hser.2 hrec

end

end

/-! ### Installing and uninstalling again -/

section
variable {codec : Codec} {env : Environment} {u : Files} {contents : Item → Bytes}
  {b : Bool} {reason : String} {path : Path} {m : ServiceManager} {env' : Environment} {t' : Files}

theorem ensure_ok (h : b = true) (s : Files) : ensure b reason s = (s, .ok ()) := by
  rw [ensure, if_pos h]
  rfl

theorem ensureSafe_ok (h : safe path u = true) : ensureSafe path u = (u, .ok ()) := get_bind_apply.trans (ensure_ok h u)

theorem call_ok (c : Call) (s : Files) : call none c s = (s, .ok ()) := rfl

theorem recordOf_entries (m : ServiceManager) (contents : Item → Bytes) :
    (recordOf codec m contents).files.entries = owned.map fun item => (item.path m, codec.digest (contents item)) := by
  have hnd : ∀ m : ServiceManager, (owned.map (Item.path m)).Nodup := by decide
  refine Assoc.collect_of_nodup ?_
  rw [map_map]
  exact hnd m

theorem recordOf_get? {item : Item} (hi : item ∈ owned) :
    (recordOf codec m contents).files.get? (item.path m) = some (codec.digest (contents item)) := by
  rw [Assoc.Map.get?_eq_some_iff, recordOf_entries]
  exact mem_map_of_mem hi

theorem readBounded_ok {bytes : Bytes} {limit : ℕ} (h : u.tree path = some (.file bytes)) (hl : bytes.length ≤ limit) :
    readBounded path limit u = some bytes := by
  simp only [readBounded, h, if_pos hl]

/-- The record is read. -/
theorem manifest_ok (hr : codec.Reads (env.record codec)) (hsf : safe (Item.path env.manager .record) u = true)
    (h : Holds codec env.manager env.contents u) : manifest codec u = (u, .ok (env.record codec)) := by
  have hp : Item.path .systemd .record = Item.path env.manager .record := rfl
  rw [manifest, hp, bind_ok (ensureSafe_ok hsf), get_bind_apply, readBounded_ok h.2 hr.encode_length]
  have hps : codec.parse (codec.encode (recordOf codec env.manager env.contents)) = some (env.record codec) := hr.parse_encode
  simp only [hps, checkRecord]
  rw [if_pos]
  · rfl
  refine ⟨rfl, rfl, ?_, fun e he => ?_⟩
  · rw [Environment.record, recordOf_entries, length_map]
  · rw [Environment.record, recordOf_entries] at he
    obtain ⟨item, hi, rfl⟩ := mem_map.mp he
    exact mem_map_of_mem hi

theorem verify_ok (hsf : ∀ item : Item, safe (item.path env.manager) u = true) (hb : env.Bounded)
    (h : Holds codec env.manager env.contents u) (allowMissing : Bool) (items : List Item) (hite : ∀ item ∈ items, item ∈ owned) :
    verify codec (env.record codec) allowMissing items u = (u, .ok ()) := by
  induction items with
  | nil => rfl
  | cons item items ih =>
    have ho := hite item mem_cons_self
    have hi : verifyItem codec (env.record codec) allowMissing item u = (u, .ok ()) := by
      have hm : (env.record codec).manager = env.manager := rfl
      rw [verifyItem, hm, bind_ok (ensureSafe_ok (hsf item)), get_bind_apply,
        readBounded_ok (h.1 item ho) (hb item ho)]
      exact ensure_ok (decide_eq_true (recordOf_get? ho)) u
    rw [verify, bind_ok hi]
    exact ih fun other hoth => hite other (mem_cons_of_mem _ hoth)

/-- An installation that has its record is completed. -/
theorem reinstall_ok (hrds : codec.Reads (env.record codec)) (hm : env'.manager = env.manager)
    (he : codec.digest env.source = env'.expectedSha256) (hsf : ∀ item : Item, safe (item.path env.manager) u = true)
    (hb : env.Bounded) (h : Holds codec env.manager env.contents u) : reinstall codec none env' u = (u, .ok ()) := by
  have hexe : u.tree (Item.path env'.manager .executable) ≠ none := by
    rw [hm, h.1 .executable (by decide)]
    exact nofun
  have hs : u.tree (Item.path env'.manager .service) ≠ none := by
    rw [hm, h.1 .service (by decide)]
    exact nofun
  have hres : restoreExecutable none env' u = (u, .ok ()) := by
    rw [restoreExecutable, get_bind_apply, if_neg hexe]
    rfl
  have hr : restoreService codec none env' (env.record codec) u = (u, .ok ()) := by
    rw [restoreService, get_bind_apply, if_neg hs]
    rfl
  have hsm : (env.record codec).manager = env'.manager := hm.symm
  have hd : (env.record codec).files.get? (Item.path env'.manager .executable) = some env'.expectedSha256 := by
    rw [hm, Environment.record, recordOf_get? (by decide), ← he]
    rfl
  rw [reinstall, bind_ok (manifest_ok hrds (hsf .record) h), bind_ok (ensure_ok (decide_eq_true hsm) u),
    bind_ok (verify_ok hsf hb h false _ (by decide)), bind_ok (verify_ok hsf hb h true _ (by decide)),
    bind_ok (ensure_ok (decide_eq_true hd) u), bind_ok hres, bind_ok hr]
  rfl

/-! ### What is stranded -/

theorem ensure_any : Fallible.Triple (fun s => s = u) (ensure b reason) (fun _ s => s = u) fun _ _ => True :=
  (ensure_triple fun _ _ _ => trivial).post fun _ _ hs => hs.2

theorem ensureSafe_any : Fallible.Triple (fun s => s = u) (ensureSafe path) (fun _ s => s = u) fun _ _ => True :=
  .get_bind fun _ hs => .of_pre ensure_any fun _ hs' => hs'.trans hs

/-- A record that cannot be read ends the run. -/
theorem manifest_stranded (h : Stranded codec m u) :
    Fallible.Triple (fun s => s = u) (manifest codec) (fun _ _ => False) fun _ _ => True := by
  rw [manifest]
  refine ensureSafe_any.bind fun _ => .get_bind fun s hs => ?_
  subst hs
  split
  · exact .fail fun _ _ => trivial
  rename_i bytes hbs
  have hf : s.tree (Item.path m .record) = some (.file bytes) := by
    simp only [readBounded] at hbs
    split at hbs
    · rename_i heq
      split at hbs
      · rw [← Option.some.inj hbs]
        exact heq
      · exact nomatch hbs
    · exact nomatch hbs
  rw [h.2 bytes hf]
  exact .fail fun _ _ => trivial

theorem checkAbsent_stranded (items : List Item) (hsome : ∃ item ∈ items, u.tree (item.path env.manager) ≠ none) :
    Fallible.Triple (fun s => s = u) (checkAbsent env items) (fun _ _ => False) fun _ _ => True := by
  induction items with
  | nil => exact absurd hsome (by simp)
  | cons item items ih =>
    rw [checkAbsent]
    refine ensureSafe_any.bind fun _ => .get_bind fun s hs => ?_
    subst hs
    refine .bind_and (ensure_triple fun _ _ _ => trivial) fun _ hn => ih ?_
    obtain ⟨other, hm, ho⟩ := hsome
    rcases mem_cons.mp hm with rfl | hm
    · exact absurd (of_decide_eq_true hn) ho
    · exact ⟨other, hm, ho⟩

/-- A stranded installation is not installed again. -/
theorem install_stranded (h : Stranded codec env.manager u) :
    Fallible.Triple (fun s => s = u) (install codec none env) (fun _ _ => False) fun _ _ => True := by
  rw [install]
  refine .bind_and (call_triple fun _ _ _ => trivial) fun _ _ => ?_
  refine ensure_any.bind fun _ => ensureSafe_any.bind fun _ => ensureSafe_any.bind fun _ => ensureSafe_any.bind fun _ =>
    .get_bind fun s hs => ?_
  subst hs
  split
  · rw [reinstall]
    exact (manifest_stranded h).bind fun _ => fun _ hf => hf.elim
  · refine .bind (Q := fun _ _ => False) ?_ fun _ => fun _ hf => hf.elim
    rw [preflight]
    exact (checkAbsent_stranded _ h.1).bind fun _ => fun _ hf => hf.elim

/-- A stranded installation is not uninstalled. -/
theorem uninstall_stranded (h : Stranded codec env.manager u) (purge : Bool) :
    Fallible.Triple (fun s => s = u) (uninstall codec none env purge) (fun _ _ => False) fun _ _ => True := by
  rw [uninstall]
  exact (manifest_stranded h).bind fun _ => fun _ hf => hf.elim

/-! ### Recovery -/

/-- An installation, complete with its record. -/
def Complete (codec : Codec) (env : Environment) (fs : Files) : Prop :=
  ∃ contents, Holds codec env.manager contents fs ∧ codec.digest (contents .executable) = env.expectedSha256

/-- It is installed, or it is uninstalled. -/
def Recovers (codec : Codec) (env : Environment) (u : Files) : Prop :=
  (∃ u', install codec none env u = (u', .ok ()) ∧ Complete codec env u') ∨
    ∃ u', uninstall codec none env true u = (u', .ok ()) ∧ Untouched env.manager u'

/-- What made the run fail is gone: nothing is in the way, and the files of the installation are as they were left. -/
structure CauseGone (codec : Codec) (env : Environment) (t' u : Files) : Prop where
  source : env.source ≠ [] ∧ env.source.length ≤ limit ∧ codec.digest env.source = env.expectedSha256
  address : validAddress env.address = true
  alternate : env.behindLinks u (alternate env.manager) = none
  above : ∀ item : Item, ∀ q ∈ parents (item.path env.manager), u.tree q = none ∨ u.tree q = some .dir
  configDir : ∀ x, u.tree (configDir ++ [x]) ≠ none → ∃ item ∈ owned, configDir ++ [x] = item.path env.manager
  same : ∀ item : Item, u.tree (item.path env.manager) = t'.tree (item.path env.manager)

theorem CauseGone.unobstructed (h : CauseGone codec env t' u) (hu : Untouched env.manager u) : Unobstructed codec env u := by
  refine ⟨h.source, h.address, h.alternate, h.above, ?_⟩
  rw [Bool.eq_false_iff, ne_eq, hasEntries_iff]
  rintro ⟨x, hx⟩
  obtain ⟨item, -, hi⟩ := h.configDir x hx
  rw [hi] at hx
  exact hx (hu item)

/-- Where none of the files is there, it is installed. -/
theorem recovers_untouched (hr : codec.Reads (env.record codec)) (h : CauseGone codec env t' u)
    (hu : Untouched env.manager u) : Recovers codec env u := by
  have ht : Fallible.Triple (fun s => s = u) (install codec none env)
      (fun _ s => Passed none (lostCalls env.manager) ∧ Holds codec env.manager env.contents s) (Ends codec env none u) :=
    install_triple hr hu
  have hi := ht u rfl
  split at hi
  · rename_i u' _ heq
    exact .inl ⟨u', heq, _, hi.2, h.source.2.2⟩
  rename_i u' e heq
  cases e with
  | call c => exact nomatch hi.1
  | refused reason => exact absurd (h.unobstructed hu) hi.2

/-- Where the record is there, it is installed too. -/
theorem recovers_holds (hrds : codec.Reads (env.record codec)) (hb : env.Bounded)
    (hm : env'.manager = env.manager) (he : env'.expectedSha256 = env.expectedSha256) (ho : codec.digest env.source = env.expectedSha256)
    (h : CauseGone codec env' t' u) (hu : Holds codec env.manager env.contents u) : Recovers codec env' u := by
  have hn (item : Item) : ∃ bytes, u.tree (item.path env.manager) = some (.file bytes) := by
    by_cases hi : item ∈ owned
    · exact ⟨_, hu.1 item hi⟩
    · have hr : ∀ item, item ∉ owned → item = .record := by decide
      rw [hr item hi]
      exact ⟨_, hu.2⟩
  have hsf (item : Item) : safe (item.path env.manager) u = true := by
    obtain ⟨bytes, hbs⟩ := hn item
    exact safe_of (hbs ▸ nofun) fun q hq => not_symlink_of_free (h.above item q (hm ▸ hq))
  have hrei := reinstall_ok hrds hm (ho.trans he.symm) hsf hb hu
  refine .inl ⟨u, ?_, env.contents, hm ▸ hu, ho.trans he.symm⟩
  have hs : (decide (env'.source ≠ []) && decide (env'.source.length ≤ limit) &&
      decide (codec.digest env'.source = env'.expectedSha256)) = true := by
    rw [decide_eq_true h.source.1, decide_eq_true h.source.2.1, decide_eq_true h.source.2.2]
    rfl
  have hr : u.tree (Item.path env'.manager .record) ≠ none := by
    rw [hm, hu.2]
    exact nofun
  have hsf' (item : Item) : safe (item.path env'.manager) u = true := hm ▸ hsf item
  rw [install, bind_ok (call_ok _ u), bind_ok (ensure_ok hs u), bind_ok (ensureSafe_ok (hsf' _)),
    bind_ok (ensureSafe_ok (hsf' _)), bind_ok (ensureSafe_ok (hsf' _)), get_bind_apply, if_pos hr]
  exact hrei

theorem not_recovers_stranded (hu : Stranded codec env.manager u) : ¬Recovers codec env u := by
  rintro (⟨u', heq, -⟩ | ⟨u', heq, -⟩)
  · have hi := install_stranded hu u rfl
    rw [heq] at hi
    exact hi
  · have huni := uninstall_stranded hu true u rfl
    rw [heq] at huni
    exact huni

end

/-- **An installation that failed is recovered exactly when it was not lost between the first file and the record.**
It starts where none of the files is there, a call of it fails, or it is refused. Once the cause is gone, it is installed
or uninstalled with the same arguments, unless nothing was in the way of it and a call after that of the first file was
made and before the record was written has failed. -/
theorem install_recoverable_iff (codec : Codec) (env env' : Environment) (fault : Fault) (t t' u : Files) (e : InstallError)
    (hreads : codec.Reads (env.record codec)) (hreads' : codec.Reads (env'.record codec)) (hbounded : env.Bounded)
    (hmanager : env'.manager = env.manager) (hexpected : env'.expectedSha256 = env.expectedSha256) (ht : Untouched env.manager t)
    (hfail : install codec fault env t = (t', .error e)) (hgone : CauseGone codec env' t' u) :
    Recovers codec env' u ↔ ¬(Unobstructed codec env t ∧ ∃ c ∈ lostCalls env.manager, fault.hits c = true) := by
  have hends : Ends codec env fault t e t' := by
    have htri : Fallible.Triple (fun s => s = t) (install codec fault env)
        (fun _ s => Passed fault (lostCalls env.manager) ∧ Holds codec env.manager env.contents s) (Ends codec env fault t) :=
      install_triple hreads ht
    have h := htri t rfl
    rw [hfail] at h
    exact h
  have hsm : ∀ item : Item, u.tree (item.path env.manager) = t'.tree (item.path env.manager) := hmanager ▸ hgone.same
  have hunt (h : Untouched env.manager t') : Recovers codec env' u :=
    recovers_untouched hreads' hgone (hmanager ▸ fun item => (hsm item).trans (h item))
  cases e with
  | refused reason => exact iff_of_true (hunt hends.1) fun h => hends.2 h.1
  | call c =>
    obtain ⟨hhits, hst⟩ := hends
    split at hst
    · rename_i hlost
      refine iff_of_false (not_recovers_stranded ?_) fun h => h ⟨hst.2, c, hlost, hhits⟩
      obtain ⟨⟨item, hown, hi⟩, hrec⟩ := hst.1
      refine hmanager ▸ ⟨⟨item, hown, by rwa [hsm item]⟩, fun bytes hbs => hrec bytes ?_⟩
      rwa [← hsm .record]
    · rename_i hk
      refine iff_of_true ?_ fun ⟨_, c', hlost, hhits'⟩ => hk ?_
      · rcases hst with h | ⟨⟨hfs, hrec⟩, ho⟩
        · exact hunt h
        · refine recovers_holds hreads hbounded hmanager hexpected ho.source.2.2 hgone ⟨fun item hi => ?_, ?_⟩
          · rw [hsm item, hfs item hi]
          · rw [hsm .record, hrec]
      · have hsing : c' = c := by
          cases fault with
          | none => exact absurd hhits nofun
          | some f => exact (of_decide_eq_true hhits').symm.trans (of_decide_eq_true hhits)
        exact hsing ▸ hlost

/-! ### A case -/

section

def ascii (text : Text) : Bytes := text.map fun c => .ofNat c.toNat

/-- The digests of the files of the case. -/
def sampleDigest (bytes : Bytes) : Text :=
  if bytes = ascii "relay".toList then "682fbae20f3428bcec4c117c57bea18d438c4758d972909b41dbe22884e0d6b8".toList
  else if bytes = ascii "unit".toList then "385cfdbc00ec32031699460779c15099b2bba3cad0e440fffb08e10df0acb9e1".toList
  else if bytes = ascii "credential".toList then "e265b6f564601a1fe8dc42785cd18a868bd8013eb5899560e79248767a683e6b".toList
  else []

def sampleEnvironment : Environment where
  manager := .systemd
  source := ascii "relay".toList
  expectedSha256 := "682fbae20f3428bcec4c117c57bea18d438c4758d972909b41dbe22884e0d6b8".toList
  address := "relay.example".toList
  credentials _ := ascii "credential".toList
  definition := ascii "unit".toList
  definitions := [ascii "unit".toList]
  behindLinks fs := fs.tree

def sampleRecord : Manifest :=
  ⟨product, 1, .systemd, .ofEntries (owned.map fun item => (item.path .systemd, sampleDigest (sampleEnvironment.contents item)))⟩

/-- A record as it is written, the files in the order of their paths. -/
@[irreducible] def sampleEncode (record : Manifest) : Bytes :=
  let file (item : Item) : Text :=
    '"' :: ['/'].intercalate ((item.path record.manager).map String.toList) ++ "\":\"".toList ++
      (record.files.get? (item.path record.manager)).getD [] ++ ['"']
  let files := [Item.access, .certificate, .privateKey, .config, .service, .executable].map file
  ascii ("\x7b\"product\":\"pebrel-relay\",\"version\":1,\"manager\":\"systemd\",\"files\":\x7b".toList ++ [','].intercalate files ++
    "\x7d\x7d".toList)

def sampleCodec : Codec where
  digest := sampleDigest
  encode := sampleEncode
  parse bytes := if bytes = sampleEncode sampleRecord then some sampleRecord else none

theorem Codec.Reads.of_single {record : Manifest} (hps :
    ∀ bytes, codec.parse bytes = if bytes = codec.encode record then some record else none)
    (hne : codec.encode record ≠ []) (hl : (codec.encode record).length ≤ 8192) : codec.Reads record :=
  ⟨by rw [hps, if_pos rfl], fun bytes _ hbs => by rw [hps, if_neg hbs], hne, hl⟩

theorem sampleEncode_ne : sampleEncode sampleRecord ≠ [] := by decide +kernel

theorem sampleEncode_length : (sampleEncode sampleRecord).length ≤ 8192 := by decide +kernel

theorem sampleCodec_reads : sampleCodec.Reads sampleRecord := .of_single _ (fun _ => rfl) sampleEncode_ne sampleEncode_length

local instance lawfulBEq_path : LawfulBEq (List String) := List.instLawfulBEq

/-- The files of an installation that are there, in their directories and with nothing else. -/
def cleared (m : ServiceManager) (t' : Files) : Files where
  tree q := if q ∈ Item.all.map (Item.path m) then t'.tree q else if q ∈ directories m then some .dir else none
  paths := Item.all.map (Item.path m) ++ directories m
  complete q hq := by
    by_cases hitem : q ∈ Item.all.map (Item.path m)
    · exact List.mem_append_left _ hitem
    rw [if_neg hitem] at hq
    by_cases hdir : q ∈ directories m
    · exact List.mem_append_right _ hdir
    · rw [if_neg hdir] at hq
      exact absurd rfl hq

theorem cleared_item (m : ServiceManager) (t' : Files) (item : Item) : (cleared m t').tree (item.path m) = t'.tree (item.path m) :=
  if_pos (mem_map_of_mem item.mem_all)

theorem alternate_not_mem : ∀ m : ServiceManager, alternate m ∉ Item.all.map (Item.path m) ∧ alternate m ∉ directories m := by
  decide

theorem concat_configDir_not_mem (m : ServiceManager) (x : String) : configDir ++ [x] ∉ directories m := by
  intro h
  have ha : ∀ m : ServiceManager, ∀ q ∈ directories m, q.dropLast ≠ configDir := by decide
  exact ha m _ h dropLast_concat

theorem sample_causeGone (t' : Files) : CauseGone sampleCodec sampleEnvironment t' (cleared .systemd t') where
  source := by decide
  address := by decide +kernel
  alternate := by
    have ha := alternate_not_mem .systemd
    change (cleared .systemd t').tree (alternate .systemd) = none
    rw [cleared]
    dsimp only
    rw [if_neg ha.1, if_neg ha.2]
  above item q hq := by
    have hi : q ∉ Item.all.map (Item.path .systemd) := by
      intro h
      obtain ⟨item', -, rfl⟩ := mem_map.mp h
      exact path_not_mem_parents hq
    exact .inr ((if_neg hi).trans (if_pos (mem_directories hq)))
  configDir x hx := by
    by_cases hi : configDir ++ [x] ∈ Item.all.map (Item.path .systemd)
    · have ho : ∀ item ∈ Item.all, (Item.path .systemd item).dropLast = configDir → item ∈ owned := by decide
      obtain ⟨item, hm, hp⟩ := mem_map.mp hi
      exact ⟨item, ho item hm (hp ▸ dropLast_concat), hp.symm⟩
    · exact absurd ((if_neg hi).trans (if_neg (concat_configDir_not_mem .systemd x))) hx
  same := cleared_item .systemd t'

/-- Everything is written, and the service cannot be enabled at first. -/
theorem install_recoverable_sample : ∃ t', install sampleCodec (some (.enable, 0)) sampleEnvironment .empty = (t', .error (.call .enable)) ∧
    Recovers sampleCodec sampleEnvironment (cleared .systemd t') := by
  have hfail : (install sampleCodec (some (.enable, 0)) sampleEnvironment .empty).2 = .error (.call .enable) := by decide +kernel
  exact ⟨_, Prod.ext rfl hfail, (install_recoverable_iff sampleCodec sampleEnvironment sampleEnvironment (some (.enable, 0)) .empty _
    (cleared .systemd _) (.call .enable) sampleCodec_reads sampleCodec_reads (by unfold Environment.Bounded; decide) rfl rfl (fun _ => rfl)
    (Prod.ext rfl hfail) (sample_causeGone _)).mpr
    fun ⟨_, c, hlost, hhits⟩ => absurd hhits ((by decide : ∀ c ∈ lostCalls .systemd, ¬Fault.hits (some (.enable, 0)) c = true) c hlost)⟩

theorem sample_unobstructed : Unobstructed sampleCodec sampleEnvironment .empty where
  source := (sample_causeGone .empty).source
  address := (sample_causeGone .empty).address
  alternate := rfl
  above _ _ _ := .inl rfl
  configDir := rfl

/-- The disk is full when the certificate is written: nothing that can be called later is done. -/
theorem install_stranded_sample : ∃ t' u, Untouched .systemd .empty ∧
    install sampleCodec (some (.write .certificate, 0)) sampleEnvironment .empty = (t', .error (.call (.write .certificate))) ∧
      CauseGone sampleCodec sampleEnvironment t' u ∧ ¬Recovers sampleCodec sampleEnvironment u := by
  have htri : Fallible.Triple (fun s => s = .empty) (install sampleCodec (some (.write .certificate, 0)) sampleEnvironment)
      (fun _ s => Passed (some (.write .certificate, 0)) (lostCalls .systemd) ∧ Holds sampleCodec .systemd sampleEnvironment.contents s)
      (Ends sampleCodec sampleEnvironment (some (.write .certificate, 0)) .empty) := install_triple sampleCodec_reads fun _ => rfl
  have hlost : .write .certificate ∈ lostCalls .systemd := by decide
  have hends := htri .empty rfl
  split at hends
  · exact absurd (hends.1 _ hlost) nofun
  rename_i t' e heq
  cases e with
  | refused reason => exact absurd sample_unobstructed hends.2
  | call c =>
    obtain ⟨hhits, hst⟩ := hends
    obtain rfl : .write .certificate = c := of_decide_eq_true hhits
    rw [if_pos (show Call.write .certificate ∈ lostCalls sampleEnvironment.manager from hlost)] at hst
    obtain ⟨⟨item, hown, hi⟩, hrec⟩ := hst.1
    refine ⟨t', cleared .systemd t', fun _ => rfl, heq, sample_causeGone t', not_recovers_stranded ⟨⟨item, hown, ?_⟩, fun bytes hbs => ?_⟩⟩
    · exact fun h => hi ((cleared_item .systemd t' item).symm.trans h)
    · exact hrec bytes ((cleared_item .systemd t' .record).symm.trans hbs)

end

end Pebrel.RelayService
