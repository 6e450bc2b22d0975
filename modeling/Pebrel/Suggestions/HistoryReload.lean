import Pebrel.Suggestions.HistoryPools

/-!
# Reading the history again

What is recorded in a session and what is read from the files of the session are two
sequences of insertions, and a pool depends only on the insertions that it gets
(`insertEvents_spec`). A record is read back with its command, and with its scope in the
form in which it was written, unless its identity is empty (`parseRecord_line`). So the files
give the pools again (`reload`).
-/

namespace Pebrel.Suggestions.History

open Library Sync List Option Text RecordJson
open Text (lines toAsciiLowercase trim unlines)

/-! ### Normalized scopes -/

theorem trim_normalizeIdentity (identity : Text) : .trim (normalizeIdentity identity) = normalizeIdentity identity := by
  rw [normalizeIdentity, trim_toAsciiLowercase, trim_trim]

theorem normalizeIdentity_idem (identity : Text) : normalizeIdentity (normalizeIdentity identity) = normalizeIdentity identity := by
  rw [normalizeIdentity, trim_normalizeIdentity, normalizeIdentity, toAsciiLowercase_idem]

/-- The cases of a destination with a user and of one without. -/
theorem normalizeSshIdentity_cases (destination : Text) : (∃ user host, trim destination = user ++ '@' :: host ∧ '@' ∉ host ∧
      normalizeSshIdentity destination = user ++ '@' :: toAsciiLowercase host) ∨
    '@' ∉ trim destination ∧ normalizeSshIdentity destination = toAsciiLowercase (trim destination) := by
  simp only [normalizeSshIdentity]
  cases hsp : rsplitOnce '@' (trim destination) with
  | none => exact .inr ⟨rsplitOnce_eq_none.mp hsp, rfl⟩
  | some parts =>
    obtain ⟨user, host⟩ := parts
    obtain ⟨heq, ho⟩ := rsplitOnce_eq_some.mp hsp
    exact .inl ⟨user, host, heq, ho, rfl⟩

theorem toAsciiLowercase_append (s t : Text) : toAsciiLowercase (s ++ t) = toAsciiLowercase s ++ toAsciiLowercase t :=
  map_append

/-- Up to case, a destination is normalized by trimming it. -/
theorem toAsciiLowercase_normalizeSshIdentity (destination : Text) :
    toAsciiLowercase (normalizeSshIdentity destination) = toAsciiLowercase (trim destination) := by
  rcases normalizeSshIdentity_cases destination with ⟨user, host, heq, -, hnorm⟩ | ⟨-, hnorm⟩
  · have hcons : ∀ t : Text, toAsciiLowercase ('@' :: t) = '@' :: toAsciiLowercase t := fun t => rfl
    rw [hnorm, heq, toAsciiLowercase_append, toAsciiLowercase_append, hcons, hcons, toAsciiLowercase_idem]
  · rw [hnorm, toAsciiLowercase_idem]

theorem trim_normalizeSshIdentity (destination : Text) : .trim (normalizeSshIdentity destination) = normalizeSshIdentity destination := by
  refine trim_eq_self_of_toAsciiLowercase ?_
  rw [toAsciiLowercase_normalizeSshIdentity, trim_toAsciiLowercase, trim_trim]

theorem normalizeSshIdentity_idem (destination : Text) :
    normalizeSshIdentity (normalizeSshIdentity destination) = normalizeSshIdentity destination := by
  have hl : ∀ t : Text, '@' ∉ t → '@' ∉ toAsciiLowercase t := fun t ht hm => ht ((mem_toAsciiLowercase (by decide)).mp hm)
  have htrim := trim_normalizeSshIdentity destination
  rcases normalizeSshIdentity_cases destination with ⟨user, host, -, hhost, hnorm⟩ | ⟨ho, hnorm⟩
  · have hsp : rsplitOnce '@' (user ++ '@' :: toAsciiLowercase host) = some (user, toAsciiLowercase host) :=
      rsplitOnce_eq_some.mpr ⟨rfl, hl host hhost⟩
    rw [hnorm] at htrim ⊢
    simp only [normalizeSshIdentity, htrim, hsp, toAsciiLowercase_idem]
  · have hsp : rsplitOnce '@' (.toAsciiLowercase (trim destination)) = none := rsplitOnce_eq_none.mpr (hl _ ho)
    rw [hnorm] at htrim ⊢
    simp only [normalizeSshIdentity, htrim, hsp, toAsciiLowercase_idem]

namespace HistoryScope

theorem normalized_normalized (scope : HistoryScope) : scope.normalized.normalized = scope.normalized := by
  cases scope with
  | Local => rfl
  | wsl distro => exact congrArg wsl (normalizeIdentity_idem distro)
  | ssh destination => exact congrArg ssh (normalizeSshIdentity_idem destination)

theorem trim_identity {scope : HistoryScope} (h : scope.normalized = scope) {identity : Text} (hid : scope.identity = some identity) :
    .trim identity = identity := by
  cases scope with
  | Local => cases hid
  | wsl distro =>
    obtain rfl := some.inj hid
    exact (wsl.inj h) ▸ trim_normalizeIdentity distro
  | ssh destination =>
    obtain rfl := some.inj hid
    exact (ssh.inj h) ▸ trim_normalizeSshIdentity destination

end HistoryScope

/-! ### Sequences of insertions -/

/-- The insertions of commands in their scopes. -/
def insertEvents (pools : Pools) (events : List (HistoryScope × Text)) : Option Pools :=
  events.foldlM (fun pools e => insertIn pools e.1 e.2) pools

/-- The commands of a scope. -/
def commandsOf (events : List (HistoryScope × Text)) (scope : HistoryScope) : List Text := (events.filter fun e => e.1 = scope).map Prod.snd

theorem commandsOf_append (events others : List (HistoryScope × Text)) (scope : HistoryScope) :
    commandsOf (events ++ others) scope = commandsOf events scope ++ commandsOf others scope := by
  rw [commandsOf, filter_append, map_append, commandsOf, commandsOf]

/-- **A pool has the commands of its scope.** -/
theorem insertEvents_spec (events : List (HistoryScope × Text)) : ∃ pools, insertEvents Assoc.Map.empty events = some pools ∧
    ∀ scope, pools.get? scope = if commandsOf events scope = [] then none else insertAll (commandsOf events scope) := by
  induction events using reverseRecOn with
  | nil => exact ⟨_, rfl, fun scope => rfl⟩
  | append_singleton events e ih =>
    obtain ⟨scope, cmd⟩ := e
    obtain ⟨pools, hpo, hg⟩ := ih
    obtain ⟨pool, hpool, hr⟩ := insertAll_refines (commandsOf events scope)
    have hc : (pools.get? scope).getD .empty = pool := by
      rw [hg]
      by_cases hn : commandsOf events scope = []
      · rw [if_pos hn]
        rw [hn] at hpool
        exact some.inj hpool
      · rw [if_neg hn, hpool]
        rfl
    obtain ⟨pool', hi, -⟩ := insert_refines hr cmd
    refine ⟨pools.insert scope pool', ?_, fun other => ?_⟩
    · rw [insertEvents, foldlM_append]
      show (insertEvents _ events).bind _ = _
      rw [hpo]
      simp [insertIn, hc, hi]
    · have ho : commandsOf [(scope, cmd)] other = if scope = other then [cmd] else [] := by
        by_cases hsm : scope = other <;> simp [commandsOf, hsm]
      rw [Assoc.Map.get?_insert, commandsOf_append, ho]
      by_cases hsm : other = scope
      · rw [if_pos hsm, if_pos hsm.symm, if_neg (by simp), hsm, insertAll, foldlM_append]
        show _ = (insertAll (commandsOf events scope)).bind _
        rw [hpool]
        simp [hi]
      · rw [if_neg hsm, if_neg (Ne.symm hsm), append_nil]
        exact hg other

theorem insertEvents_append (pools : Pools) (events others : List (HistoryScope × Text)) :
    insertEvents pools (events ++ others) = (insertEvents pools events).bind fun pools => insertEvents pools others := foldlM_append

/-! ### Records -/

variable [RecordJson]

/-- What a submission records. -/
def eventOf (submission : Submission) : Option (HistoryScope × Text) :=
  if trim submission.cmd = [] then none else some (submission.scope.normalized, trim submission.cmd)

/-- The line of a submission. -/
def lineOf (submission : Submission) : Text :=
  write (recordOf submission.scope.normalized (.trim submission.cmd) submission.cwd submission.ts)

/-- The submissions that are recorded in a file. -/
def recorded (submissions : List Submission) (file : HistoryFile) : List Submission :=
  submissions.filter fun submission => trim submission.cmd ≠ [] ∧ submission.scope.normalized.fileName = file

omit [RecordJson] in
theorem nodup_keys_recordOf (scope : HistoryScope) (cmd cwd : Text) (ts : UInt64) : ((recordOf scope cmd cwd ts).map Prod.fst).Nodup := by
  cases scope <;> simp [recordOf]

/-- The value of a record, as it is parsed. -/
def recordValue (scope : HistoryScope) (cmd cwd : Text) (ts : UInt64) : Json :=
  .object ((recordOf scope cmd cwd ts).map fun m => (m.1, m.2.json))

omit [RecordJson] in
/-- The fields of a record. -/
theorem fields_recordValue (scope : HistoryScope) (cmd cwd : Text) (ts : UInt64) :
    ((recordValue scope cmd cwd ts).get? "cmd".toList).bind Json.asStr = some cmd ∧
      ((recordValue scope cmd cwd ts).get? "scope".toList).bind Json.asStr = (match scope with
        | .Local => none
        | .wsl _ => some "wsl".toList
        | .ssh _ => some "ssh".toList) ∧
      ((recordValue scope cmd cwd ts).get? "target".toList).bind Json.asStr = scope.identity := by
  cases scope with
  | Local => exact ⟨rfl, rfl, rfl⟩
  | wsl identity => exact ⟨rfl, rfl, rfl⟩
  | ssh identity => exact ⟨rfl, rfl, rfl⟩

/-- **A record is read in the file in which it was written**, unless its identity is empty. -/
theorem parseRecord_line {submission : Submission} (hc : trim submission.cmd ≠ []) :
    parseRecord submission.scope.normalized.fileName (lineOf submission) =
      if submission.scope.normalized.identity = some [] then none else some (submission.scope.normalized, trim submission.cmd) := by
  have hs := submission.scope.normalized_normalized
  rw [parseRecord, lineOf, fromStr_write (nodup_keys_recordOf _ _ _ _)]
  generalize submission.scope.normalized = scope at hs
  obtain ⟨hcmdF, hscop, htg⟩ := fields_recordValue scope (trim submission.cmd) submission.cwd submission.ts
  dsimp only
  rw [← recordValue, hcmdF, hscop, htg]
  simp only [trim_trim, if_neg hc]
  cases scope with
  | Local => rfl
  | _ identity =>
    have htrim : trim identity = identity := HistoryScope.trim_identity hs rfl
    simp only [HistoryScope.fileName, HistoryScope.identity, recordScope, getD_some, htrim, true_and, some.injEq]
    by_cases he : identity = []
    · rw [if_neg (not_not.mpr he), if_pos he, map_none]
    · rw [if_pos he, if_neg he, map_some, hs]

/-- A line of a record is a line. -/
theorem readBack_lineOf (submission : Submission) : Text.readBack (lineOf submission) = [lineOf submission] := by
  have hnl : '\n' ∉ lineOf submission := fun hm => absurd (ge_of_mem_write hm) (by decide)
  have hr : (lineOf submission).getLast? ≠ some '\r' := fun hl =>
    absurd (ge_of_mem_write (mem_of_getLast? hl)) (by decide)
  rw [readBack_of_not_mem hnl, stripCr_of_ne hr]

theorem lines_lineOf (submissions : List Submission) : lines (unlines (submissions.map lineOf)) = submissions.map lineOf := by
  rw [lines_unlines, flatMap_map]
  induction submissions with
  | nil => rfl
  | cons submission submissions ih => rw [flatMap_cons, readBack_lineOf, ih, map_cons, singleton_append]

/-! ### Recording -/

theorem record_eq (s : State) (submission : Submission) (hc : trim submission.cmd ≠ []) : s.record submission =
    (insertIn s.pools submission.scope.normalized (trim submission.cmd)).map fun pools =>
      ⟨pools, fun file => if file = submission.scope.normalized.fileName then s.files file ++ lineOf submission ++
        ['\n'] else s.files file⟩ := by
  simp only [State.record, if_neg hc]
  rfl

/-- **What recording leaves.** -/
theorem record_spec (submissions : List Submission) : ∃ s, submissions.foldlM State.record .empty = some s ∧
    insertEvents Assoc.Map.empty (submissions.filterMap eventOf) = some s.pools ∧
    ∀ file, s.files file = unlines ((recorded submissions file).map lineOf) := by
  induction submissions using reverseRecOn with
  | nil => exact ⟨.empty, rfl, rfl, fun _ => rfl⟩
  | append_singleton submissions submission ih =>
    obtain ⟨s, hr, hpo, hfs⟩ := ih
    have hst : (submissions ++ [submission]).foldlM State.record .empty = s.record submission := by
      rw [foldlM_append, hr]
      simp
    obtain ⟨pools', hpo', -⟩ := insertEvents_spec ((submissions ++ [submission]).filterMap eventOf)
    rw [filterMap_append] at hpo' ⊢
    by_cases hc : trim submission.cmd = []
    · have hev : [submission].filterMap eventOf = [] := by simp [eventOf, hc]
      refine ⟨s, by rw [hst, State.record]; exact if_pos hc, by rw [hev, append_nil]; exact hpo, fun file => ?_⟩
      rw [hfs, recorded, recorded, filter_append, filter_cons_of_neg (by simp [hc])]
      simp
    · have hev : [submission].filterMap eventOf = [(submission.scope.normalized, trim submission.cmd)] := by simp [eventOf, hc]
      rw [hev] at hpo' ⊢
      have hi : insertIn s.pools submission.scope.normalized (trim submission.cmd) = some pools' := by
        rw [insertEvents, foldlM_append] at hpo'
        change (insertEvents _ _).bind _ = _ at hpo'
        rw [hpo] at hpo'
        simpa using hpo'
      refine ⟨_, by rw [hst, record_eq s submission hc, hi]; rfl, hpo', fun file => ?_⟩
      rw [recorded, filter_append, map_append, unlines, flatMap_append]
      by_cases hf : file = submission.scope.normalized.fileName
      · simp only [if_pos hf]
        rw [filter_cons_of_pos (by simp [hc, hf]), hfs, recorded, unlines, append_assoc]
        simp
      · simp only [if_neg hf]
        rw [filter_cons_of_neg (by simp [Ne.symm hf]), hfs, recorded, unlines]
        simp

/-! ### Loading -/

theorem loadLines_eq (category : HistoryFile) (pools : Pools) (lines : List Text) :
    loadLines category pools lines = insertEvents pools (lines.filterMap (parseRecord category)) := by
  induction lines generalizing pools with
  | nil => rfl
  | cons line lines ih =>
    rw [loadLines]
    cases hps : parseRecord category line with
    | none =>
      rw [filterMap_cons_none hps]
      exact ih pools
    | some e =>
      rw [filterMap_cons_some hps, insertEvents, foldlM_cons]
      simp only [ih]
      rfl

/-- What the lines of a file say. -/
def fileEvents (files : HistoryFile → Text) (file : HistoryFile) : List (HistoryScope × Text) :=
  (lines (files file)).filterMap (parseRecord file)

theorem load_eq (files : HistoryFile → Text) :
    load files = insertEvents Assoc.Map.empty (fileEvents files .Local ++ (fileEvents files .wsl ++ fileEvents files .ssh)) := by
  rw [insertEvents_append, load]
  simp only [foldlM_cons, foldlM_nil, loadLines_eq]
  refine congrArg _ (funext fun pools => ?_)
  rw [insertEvents_append]
  refine congrArg _ (funext fun pools => ?_)
  simp [fileEvents]

/-- The commands that the records of a file give for a scope. -/
theorem commandsOf_recorded (submissions : List Submission) (file : HistoryFile) {scope : HistoryScope} (hs : scope.identity ≠ some []) :
    commandsOf (((recorded submissions file).map lineOf).filterMap (parseRecord file)) scope =
      if scope.fileName = file then commandsOf (submissions.filterMap eventOf) scope else [] := by
  induction submissions with
  | nil => simp [recorded, commandsOf]
  | cons submission submissions ih =>
    have hcons : ∀ (e : HistoryScope × Text) (events : List (HistoryScope × Text)),
        commandsOf (e :: events) scope = if e.1 = scope then e.2 :: commandsOf events scope else commandsOf events scope := by
      intro e events
      by_cases he : e.1 = scope <;> simp [commandsOf, he]
    by_cases hc : trim submission.cmd = []
    · have hev : eventOf submission = none := if_pos hc
      rw [recorded, filter_cons_of_neg (by simp [hc]), filterMap_cons_none hev]
      exact ih
    have hev : eventOf submission = some (submission.scope.normalized, trim submission.cmd) := if_neg hc
    have hl := parseRecord_line hc
    rw [recorded, filterMap_cons_some hev, hcons]
    by_cases hf : submission.scope.normalized.fileName = file
    · rw [hf] at hl
      rw [filter_cons_of_pos (by simp [hc, hf]), map_cons]
      by_cases hemp : submission.scope.normalized.identity = some []
      · have ho : submission.scope.normalized ≠ scope := fun heq => hs (heq ▸ hemp)
        rw [if_pos hemp] at hl
        rw [filterMap_cons_none hl, if_neg ho]
        exact ih
      · rw [if_neg hemp] at hl
        rw [filterMap_cons_some hl, hcons]
        by_cases hsm : submission.scope.normalized = scope
        · have hnm : scope.fileName = file := hsm ▸ hf
          rw [if_pos hsm, if_pos hsm, if_pos hnm]
          rw [if_pos hnm] at ih
          exact congrArg _ ih
        · rw [if_neg hsm, if_neg hsm]
          exact ih
    · rw [filter_cons_of_neg (by simp [hc, hf])]
      by_cases hnm : scope.fileName = file
      · have ho : submission.scope.normalized ≠ scope := fun heq => hf (heq ▸ hnm)
        rw [if_neg ho]
        exact ih
      · rw [if_neg hnm] at ih ⊢
        exact ih

/-- **The files give back the pools.** -/
theorem reload (submissions : List Submission) : ∃ s pools, submissions.foldlM State.record .empty = some s ∧ load s.files = some pools ∧
    ∀ scope, scope.identity ≠ some [] → pools.get? scope = s.pools.get? scope := by
  obtain ⟨s, hr, hpo, hfs⟩ := record_spec submissions
  have he : ∀ file, fileEvents s.files file = ((recorded submissions file).map lineOf).filterMap (parseRecord file) := fun file => by
    rw [fileEvents, hfs, lines_lineOf]
  obtain ⟨pools, hload, hl⟩ := insertEvents_spec (fileEvents s.files .Local ++ (fileEvents s.files .wsl ++ fileEvents s.files .ssh))
  obtain ⟨pools', hpo', hg⟩ := insertEvents_spec (submissions.filterMap eventOf)
  obtain rfl := some.inj (hpo.symm.trans hpo')
  refine ⟨s, pools, hr, (load_eq s.files).trans hload, fun scope hs => ?_⟩
  have hsm : commandsOf (fileEvents s.files .Local ++ (fileEvents s.files .wsl ++ fileEvents s.files .ssh)) scope =
      commandsOf (submissions.filterMap eventOf) scope := by
    simp only [commandsOf_append, he, commandsOf_recorded submissions _ hs]
    cases scope <;> simp [HistoryScope.fileName]
  rw [hl, hg, hsm]

end Pebrel.Suggestions.History
