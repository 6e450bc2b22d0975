import Pebrel.Library.Trace
import Pebrel.Runtime.OrchestrationSteps
import Mathlib.Data.List.Nodup

/-!
# The order of the steps

What holds of the variables of the loop and of the trace at the head of the loop
(`Flow`) is kept by the steps, by the wait for a launch that is referred to, and by
what comes of the other launches at the end. What `execute` promises follows from it
(`execute_controlFlow`): a step is started once, in its turn, after the step it
refers to has ended well, and not after a failure that stops the workflow.
-/

namespace Pebrel.Runtime.Orchestrate

open Library Fallible Library.Assoc Library.Trace List Option Bool Prod PendingAgentLaunch World
open Sync (Json)

variable {σ : Type} {host : Host σ} {params : OrchestrateParams}

/-! ### Traces of workflows -/

def Event.step : Event → Text
  | started step | completed step | submitted step | failed step => step

/-- The steps that were started, in the order in which they were. -/
def startedSteps (t : List Event) : List Text :=
  t.filterMap fun
    | .started step => some step
    | _ => none

theorem startedSteps_append (t t' : List Event) : startedSteps (t ++ t') = startedSteps t ++ startedSteps t' := filterMap_append

theorem mem_startedSteps {t : List Event} {x : Text} : x ∈ startedSteps t ↔ .started x ∈ t := by
  rw [startedSteps, mem_filterMap]
  constructor
  · rintro ⟨e, he, hx⟩
    split at hx
    · cases hx
      exact he
    · exact nomatch hx
  · exact fun h => ⟨_, h, rfl⟩

/-- One of these steps is the step `x`, and has ended well. -/
def Succeeded (steps : List OrchestrateStep) (t : List Event) (x : Text) : Prop :=
  ∃ step ∈ steps, step.id = x ∧ step.success ∈ t ∧ .failed x ∉ t

/-- When a step may be started: nothing has failed if that stops the workflow, and what it refers to has succeeded. -/
def Allowed (params : OrchestrateParams) (before : List Event) (e : Event) : Prop :=
  ∀ x, e = .started x → (params.onError = .stop → ∀ y, .failed y ∉ before) ∧
    ∀ done step rest, params.steps = done ++ step :: rest → step.id = x → ∀ r, step.referencedStep = some r →
      Succeeded done before r

theorem allowed_of_ne {e : Event} (h : ∀ x, e ≠ .started x) (before : List Event) : Allowed params before e :=
  fun x hx => absurd hx (h x)

/-! ### The invariant of the loop -/

/-- A receipt is as the trace says, with launches that are not decided yet. -/
structure Fits (done : List OrchestrateStep) (pending : List Text) (t : List Event) (r : StepReceipt) : Prop where
  failed : r.ok = false ↔ .failed r.id ∈ t
  error : r.ok = true ↔ r.error = none
  started : r.ok = true → .started r.id ∈ t
  success : r.ok = true → r.id ∈ pending ∨ ∃ step ∈ done, step.id = r.id ∧ step.success ∈ t

structure Flow (params : OrchestrateParams) (done : List OrchestrateStep) (p : Progress) (t : List Event) : Prop where
  receipts : p.receipts.map (fun r => (r.id, r.op)) = done.map fun s => (s.id, s.op)
  starts : (startedSteps t).Sublist (done.map OrchestrateStep.id)
  actions : ∀ x, (p.actions.get? x).isSome → Succeeded done t x
  pending : (p.pendingAgents.map stepId).Sublist (done.map OrchestrateStep.id)
  launched : ∀ a ∈ p.pendingAgents,
    (∃ s, done[a.receiptIndex]? = some s ∧ s.id = a.stepId ∧ s.success = .submitted s.id) ∧ .failed a.stepId ∉ t
  fits : ∀ r ∈ p.receipts, Fits done (p.pendingAgents.map stepId) t r
  failures : ∀ x, Event.failed x ∈ t → x ∈ done.map OrchestrateStep.id
  causal : Causal (Allowed params) t

theorem Flow.init (params : OrchestrateParams) : Flow params [] ⟨.empty, [], []⟩ [] where
  receipts := rfl
  starts := .refl _
  actions := by simp
  pending := .refl _
  launched := by simp
  fits := by simp
  failures := by simp
  causal := causal_nil

theorem Fits.mono {done done' : List OrchestrateStep} {pending pending' : List Text} {t t' : List Event} {r : StepReceipt}
    (h : Fits done pending t r) (hd : done ⊆ done') (hpd : r.id ∈ pending → r.id ∈ pending') (ht : t ⊆ t')
    (hfail : .failed r.id ∈ t' → .failed r.id ∈ t) : Fits done' pending' t' r where
  failed := h.failed.trans ⟨fun hm => ht hm, hfail⟩
  error := h.error
  started hok := ht (h.started hok)
  success hok := by
    rcases h.success hok with hm | ⟨step, hst, hid, hsucc⟩
    · exact .inl (hpd hm)
    · exact .inr ⟨step, hd hst, hid, ht hsucc⟩

theorem Succeeded.mono {done done' : List OrchestrateStep} {t t' : List Event} {x : Text} (h : Succeeded done t x) (hd : done ⊆ done')
    (ht : t ⊆ t') (hfail : .failed x ∈ t' → .failed x ∈ t) : Succeeded done' t' x := by
  obtain ⟨step, hst, hid, hsucc, hne⟩ := h
  exact ⟨step, hd hst, hid, ht hsucc, fun hm => hne (hfail hm)⟩

namespace Flow

variable {done rest : List OrchestrateStep} {step : OrchestrateStep} {p : Progress} {t es : List Event}

theorem length_receipts (h : Flow params done p t) : p.receipts.length = done.length := by
  simpa using congrArg length h.receipts

theorem ids (h : Flow params done p t) : p.receipts.map StepReceipt.id = done.map OrchestrateStep.id := by
  have h := congrArg (List.map fst) h.receipts
  rwa [List.map_map, List.map_map] at h

/-- Prompts that are submitted keep the invariant. -/
theorem submits {t' : List Event} (h : Flow params done p t) (ht : Submits t t') : Flow params done p t' := by
  have hfail (x : Text) : .failed x ∈ t' → .failed x ∈ t := ht.of_failed
  obtain ⟨es, rfl, hes⟩ := ht
  have hst : startedSteps es = [] := by
    rw [eq_nil_iff_forall_not_mem]
    intro x hx
    obtain ⟨y, hy⟩ := hes _ (mem_startedSteps.mp hx)
    exact nomatch hy
  refine ⟨h.receipts, ?_, fun x hx => ?_, h.pending, fun a ha => ?_, fun r hr => ?_, fun x hx => ?_, ?_⟩
  · rw [startedSteps_append, hst, append_nil]
    exact h.starts
  · exact (h.actions x hx).mono (.refl _) (subset_append_left _ _) (hfail x)
  · exact ⟨(h.launched a ha).1, fun hm => (h.launched a ha).2 (hfail _ hm)⟩
  · exact (h.fits r hr).mono (.refl _) (fun hm => hm) (subset_append_left _ _) (hfail _)
  · exact h.failures x (hfail x hx)
  · refine h.causal.append fun e he before => allowed_of_ne (fun x hx => ?_) before
    obtain ⟨y, hy⟩ := hes e he
    exact nomatch hy.symm.trans hx

/-- What the record of a step has to keep. -/
theorem push {receipt : StepReceipt} {actions : Actions} {new : List PendingAgentLaunch} (h : Flow params done p t)
    (hfr : step.id ∉ done.map OrchestrateStep.id) (hes : ∀ e ∈ es, e.step = step.id)
    (hst : (startedSteps es).Sublist [step.id])
    (hc : Causal (Allowed params) (t ++ es)) (hrec : (receipt.id, receipt.op) = (step.id, step.op))
    (hact : ∀ x, (actions.get? x).isSome → (p.actions.get? x).isSome ∨ x = step.id ∧ step.success ∈ es ∧ .failed x ∉ es)
    (hnew : (new.map stepId).Sublist [step.id])
    (hl : ∀ a ∈ new,
      a.receiptIndex = p.receipts.length ∧ a.stepId = step.id ∧ step.success = .submitted step.id ∧ .failed step.id ∉ es)
    (hfits : Fits [step] (new.map stepId) es receipt) :
    Flow params (done ++ [step]) ⟨actions, p.receipts ++ [receipt], p.pendingAgents ++ new⟩ (t ++ es) := by
  have hfail (x : Text) (hx : x ∈ done.map OrchestrateStep.id) : Event.failed x ∈ t ++ es → Event.failed x ∈ t := by
    intro hm
    rcases mem_append.mp hm with hm | hm
    · exact hm
    · rw [← hes _ hm] at hfr
      exact absurd hx hfr
  have hn : .failed step.id ∉ t := fun hm => hfr (h.failures _ hm)
  have hid : receipt.id = step.id := congrArg fst hrec
  refine ⟨?_, ?_, fun x hx => ?_, ?_, fun a ha => ?_, fun r hr => ?_, fun x hx => ?_, hc⟩
  · rw [map_append, map_append, h.receipts, map_singleton, map_singleton, hrec]
  · rw [startedSteps_append, map_append]
    exact h.starts.append hst
  · rcases hact x hx with hx | ⟨rfl, hsucc, hne⟩
    · obtain ⟨s, hs, hxs, hs'⟩ := h.actions x hx
      refine .mono ⟨s, hs, hxs, hs'⟩ (subset_append_left _ _) (subset_append_left _ _) (hfail x ?_)
      exact List.mem_map.mpr ⟨s, hs, hxs⟩
    · refine ⟨step, by simp, rfl, mem_append_right _ hsucc, fun hm => ?_⟩
      rcases mem_append.mp hm with hm | hm
      · exact hn hm
      · exact hne hm
  · rw [map_append, map_append]
    exact h.pending.append hnew
  · rcases mem_append.mp ha with ha | ha
    · obtain ⟨⟨s, hs, hsa, hsucc⟩, hne⟩ := h.launched a ha
      have hs' : (done ++ [step])[a.receiptIndex]? = some s := getElem?_append_left (List.getElem?_eq_some_iff.mp hs).1 ▸ hs
      refine ⟨⟨s, hs', hsa, hsucc⟩, fun hm => hne (hfail _ ?_ hm)⟩
      exact List.mem_map.mpr ⟨s, mem_of_getElem? hs, hsa⟩
    · obtain ⟨hix, ha', hsucc, hne⟩ := hl a ha
      refine ⟨⟨step, ?_, ha'.symm, hsucc⟩, fun hm => ?_⟩
      · rw [hix, h.length_receipts]
        simp
      · rw [ha'] at hm
        rcases mem_append.mp hm with hm | hm
        · exact hn hm
        · exact hne hm
  · rcases mem_append.mp hr with hr | hr
    · have hm : r.id ∈ done.map OrchestrateStep.id := h.ids ▸ List.mem_map_of_mem hr
      refine (h.fits r hr).mono (subset_append_left _ _) (fun hm => ?_) (subset_append_left _ _) (hfail _ hm)
      rw [map_append]
      exact mem_append_left _ hm
    · rw [mem_singleton.mp hr]
      refine hfits.mono (subset_append_right _ _) (fun hm => ?_) (subset_append_right _ _) fun hm => ?_
      · rw [map_append]
        exact mem_append_right _ hm
      · rw [hid] at hm ⊢
        exact (mem_append.mp hm).resolve_left hn
  · rcases mem_append.mp hx with hx | hx
    · rw [map_append]
      exact mem_append_left _ (h.failures x hx)
    · have hstep := hes _ hx
      simp only [Event.step] at hstep
      simp [hstep]

/-- The other receipts are of other steps. -/
theorem ne_of_mem_set {receipt r : StepReceipt} {i : ℕ} (h : Flow params done p t) (hnd : (done.map OrchestrateStep.id).Nodup)
    (hs : done[i]? = some step) (hr : r ∈ p.receipts.set i receipt) : r = receipt ∨ r ∈ p.receipts ∧ r.id ≠ step.id := by
  obtain ⟨j, hj⟩ := mem_iff_getElem?.mp hr
  have hi : (done.map OrchestrateStep.id)[i]? = some step.id := by rw [getElem?_map, hs, map_some]
  rcases eq_or_ne i j with rfl | hij
  · rw [getElem?_set_self', Option.map_eq_map, map_eq_some_iff] at hj
    obtain ⟨_, -, rfl⟩ := hj
    exact .inl rfl
  rw [getElem?_set_ne hij] at hj
  refine .inr ⟨mem_of_getElem? hj, fun hid => hij ?_⟩
  have hj' : (done.map OrchestrateStep.id)[j]? = some r.id := by rw [← h.ids, getElem?_map, hj, map_some]
  exact (getElem?_inj (List.getElem?_eq_some_iff.mp hi).1 hnd).mp (by rw [hi, hj', hid])

/-- What the record of the end of a launch has to keep. -/
theorem settle {a : PendingAgentLaunch} {before after : List PendingAgentLaunch} {receipt : StepReceipt} {actions : Actions}
    (h : Flow params done p t) (hnd : (done.map OrchestrateStep.id).Nodup) (hpd : p.pendingAgents = before ++ a :: after)
    (hs : done[a.receiptIndex]? = some step) (hsa : step.id = a.stepId) (hes : ∀ e ∈ es, e = .failed a.stepId)
    (hrec : (receipt.id, receipt.op) = (step.id, step.op))
    (ha : ∀ x, (actions.get? x).isSome → x ≠ a.stepId ∧ (p.actions.get? x).isSome ∨ Succeeded done (t ++ es) x)
    (hfits : Fits done [] (t ++ es) receipt) :
    Flow params done ⟨actions, p.receipts.set a.receiptIndex receipt, before ++ after⟩ (t ++ es) := by
  have hf (x : Text) (hx : x ≠ a.stepId) : .failed x ∈ t ++ es → .failed x ∈ t := by
    intro hm
    rcases mem_append.mp hm with hm | hm
    · exact hm
    · exact absurd (Event.failed.inj (hes _ hm)) hx
  have hst : startedSteps es = [] := by
    rw [eq_nil_iff_forall_not_mem]
    exact fun x hx => nomatch hes _ (mem_startedSteps.mp hx)
  have hrest : (before ++ after).Sublist (before ++ a :: after) := (Sublist.refl _).append (sublist_cons_self _ _)
  have hd : (p.pendingAgents.map stepId).Nodup := h.pending.nodup hnd
  rw [hpd, map_append, map_cons, nodup_middle, nodup_cons, ← map_append] at hd
  refine ⟨?_, ?_, fun x hx => ?_, ?_, fun b hb => ?_, fun r hr => ?_, fun x hx => ?_, ?_⟩
  · rw [map_set, h.receipts, hrec]
    obtain ⟨hlt, hg⟩ := List.getElem?_eq_some_iff.mp hs
    rw [← hg, ← map_set, set_getElem_self]
  · rw [startedSteps_append, hst, append_nil]
    exact h.starts
  · rcases ha x hx with ⟨hne, hx⟩ | hx
    · exact (h.actions x hx).mono (.refl _) (subset_append_left _ _) (hf x hne)
    · exact hx
  · exact ((hrest.map _).trans (by rw [hpd])).trans h.pending
  · have hne : b.stepId ≠ a.stepId := fun heq => hd.1 (heq ▸ List.mem_map_of_mem hb)
    obtain ⟨hb', hfail⟩ := h.launched b (hpd ▸ hrest.subset hb)
    exact ⟨hb', fun hm => hfail (hf _ hne hm)⟩
  · rcases h.ne_of_mem_set hnd hs hr with rfl | ⟨hr, hne⟩
    · exact hfits.mono (Subset.refl _) (fun hm => nomatch hm) (Subset.refl _) fun hm => hm
    · rw [hsa] at hne
      refine (h.fits r hr).mono (.refl _) (fun hm => ?_) (subset_append_left _ _) (hf _ hne)
      rw [hpd, map_append, map_cons] at hm
      rw [map_append]
      rcases mem_append.mp hm with hm | hm
      · exact mem_append_left _ hm
      · exact mem_append_right _ ((mem_cons.mp hm).resolve_left hne)
  · rcases mem_append.mp hx with hx | hx
    · exact h.failures x hx
    · rw [Event.failed.inj (hes _ hx), ← hsa]
      exact List.mem_map_of_mem (mem_of_getElem? hs)
  · refine h.causal.append fun e he before => allowed_of_ne (fun x hx => ?_) before
    rw [hes e he] at hx
    exact nomatch hx

end Flow

/-! ### The end of a launch -/

/-- The failure that is recorded, if there is one. -/
def AgentFinalization.recorded (f : AgentFinalization) : List Event :=
  match f.outcome with
  | .ok _ => []
  | .error _ => [.failed f.stepId]

theorem trace_logOutcome (f : AgentFinalization) (w : World σ) : (w.logOutcome f).trace = w.trace ++ f.recorded := by
  rw [logOutcome, AgentFinalization.recorded]
  cases f.outcome with
  | ok => exact (append_nil _).symm
  | error => rfl

namespace Flow

variable {done rest : List OrchestrateStep} {step : OrchestrateStep} {p : Progress} {t es : List Event}

theorem finalize {a : PendingAgentLaunch} {before after : List PendingAgentLaunch} {f : AgentFinalization} (h : Flow params done p t)
    (hnd : (done.map OrchestrateStep.id).Nodup) (hpd : p.pendingAgents = before ++ a :: after)
    (hl : f.launch = (a.receiptIndex, a.stepId)) (hsou : f.Sound t) :
    Flow params done { p.finalize f with pendingAgents := before ++ after } (t ++ f.recorded) := by
  obtain ⟨hix, hst⟩ := Prod.mk.inj hl
  obtain ⟨⟨step, hs, hsa, hsucc⟩, hn⟩ := h.launched a (by simp [hpd])
  have hlt : a.receiptIndex < p.receipts.length := h.length_receipts ▸ (List.getElem?_eq_some_iff.mp hs).1
  obtain ⟨receipt, hr⟩ : ∃ receipt, p.receipts[a.receiptIndex]? = some receipt := ⟨_, getElem?_eq_getElem hlt⟩
  have hidop : (receipt.id, receipt.op) = (step.id, step.op) := by
    have hm := congrArg (·[a.receiptIndex]?) h.receipts
    simpa [hr, hs] using hm
  have hid : receipt.id = a.stepId := (congrArg fst hidop).trans hsa
  have hfits := h.fits receipt (mem_of_getElem? hr)
  have hok : receipt.ok = true := by
    rw [← not_eq_false, hfits.failed, hid]
    exact hn
  rw [AgentFinalization.recorded, Progress.finalize, applyAgentFinalization, hix, hr, hst]
  cases ho : f.outcome with
  | ok action =>
    have hsub : step.success ∈ t := by
      rw [hsucc, hsa, ← hst]
      exact hsou action ho
    refine h.settle hnd hpd hs hsa (by simp) hidop (fun x hx => ?_) ⟨?_, hfits.error, ?_, fun _ => .inr ?_⟩
    · rw [Map.get?_insert] at hx
      split at hx
      · rename_i heq
        refine .inr ⟨step, mem_of_getElem? hs, hsa.trans heq.symm, by simpa using hsub, ?_⟩
        rw [append_nil, heq]
        exact hn
      · rename_i hne
        exact .inl ⟨hne, hx⟩
    · simpa using hfits.failed
    · simpa using hfits.started
    · exact ⟨step, mem_of_getElem? hs, hsa.trans hid.symm, by simpa using hsub⟩
  | error error =>
    refine h.settle hnd hpd hs hsa (by simp) hidop (fun x hx => ?_) ⟨?_, ?_, ?_, ?_⟩
    · rw [Map.get?_filterKeys] at hx
      split at hx
      · rename_i hne
        exact .inl ⟨of_decide_eq_true hne, hx⟩
      · cases hx
    · simp [hid]
    · simp
    · simp
    · simp

/-- What the wait for the launch that a step refers to does. -/
theorem awaitReference {w : World σ} (h : Flow params done p w.trace) (hnd : (done.map OrchestrateStep.id).Nodup) :
    let r := awaitReference host step p w
    Flow params done r.2.1 r.1.trace ∧ (r.2.2 = false → ∀ x, .failed x ∈ r.1.trace → .failed x ∈ w.trace) ∧
      (r.2.2 = true → ∃ x, .failed x ∈ r.1.trace) := by
  rw [Orchestrate.awaitReference]
  split
  · exact ⟨h, fun _ x hx => hx, by simp⟩
  rename_i index hix
  split
  · exact ⟨h, fun _ x hx => hx, by simp⟩
  rename_i pending hpd
  obtain ⟨hlt, hg⟩ := List.getElem?_eq_some_iff.mp hpd
  have hf := (@finalizeAgent_acts _ host pending w).follows
  have hs : (finalizeAgent host pending w).2.Sound (finalizeAgent host pending w).1.trace := hf.sound (by
    intro action ha
    exact nomatch ha)
  have hsp : p.pendingAgents = p.pendingAgents.take index ++ pending :: p.pendingAgents.drop (index + 1) := by
    rw [← hg, getElem_cons_drop, take_append_drop]
  have hflow := (h.submits hf.submits).finalize hnd hsp hf.launch hs
  rw [← eraseIdx_eq_take_drop_succ, ← trace_logOutcome] at hflow
  refine ⟨hflow, fun hok x hx => ?_, fun hfail => ?_⟩
  · cases ho : (finalizeAgent host pending w).2.outcome with
    | ok action =>
      simp only [logOutcome, ho] at hx
      exact hf.submits.of_failed hx
    | error error => simp [ho] at hok
  · cases ho : (finalizeAgent host pending w).2.outcome with
    | ok action => simp [ho] at hfail
    | error error => exact ⟨(finalizeAgent host pending w).2.stepId, by simp [logOutcome, log, ho]⟩

/-! ### The record of a step -/

/-- A step may be started where the loop does. -/
theorem start (h : Flow params done p t) (hss : params.steps = done ++ step :: rest)
    (hnd : (params.steps.map OrchestrateStep.id).Nodup) (hc : params.onError = .stop → ∀ x, Event.failed x ∉ t)
    (hres : Resolves step p.actions) : Causal (Allowed params) (t ++ [Event.started step.id]) := by
  refine causal_concat_iff.mpr ⟨h.causal, fun x hx => ?_⟩
  cases hx
  refine ⟨hc, fun done' step' rest' hss' hid r hr => ?_⟩
  have hm : step ∈ params.steps := by simp [hss]
  have hm' : step' ∈ params.steps := by simp [hss']
  obtain rfl : step' = step := inj_on_of_nodup_map hnd hm' hm hid
  have hfr := hnd
  rw [hss, map_append, map_cons, nodup_middle, nodup_cons, ← map_append] at hfr
  have hne (s : OrchestrateStep) (hs : s ∈ done ++ rest) : s ≠ step' := fun heq => hfr.1 (heq ▸ List.mem_map_of_mem hs)
  obtain ⟨rfl, -, -⟩ := (append_cons_inj_of_notMem (fun hs => hne _ (mem_append_left _ hs) rfl)
    fun hs => hne _ (mem_append_right _ hs) rfl).mp (hss.symm.trans hss')
  exact h.actions r (hres r hr)

theorem fresh (hss : params.steps = done ++ step :: rest) (hnd : (params.steps.map OrchestrateStep.id).Nodup) :
    step.id ∉ done.map OrchestrateStep.id := by
  rw [hss, map_append, map_cons, nodup_middle, nodup_cons] at hnd
  exact fun hm => hnd.1 (mem_append_left _ hm)

/-- A step that has ended well. -/
theorem complete {action : Json} (h : Flow params done p t) (hfr : step.id ∉ done.map OrchestrateStep.id)
    (hc : Causal (Allowed params) (t ++ [.started step.id])) (hsucc : step.success = .completed step.id) :
    Flow params (done ++ [step])
      ⟨p.actions.insert step.id action, p.receipts ++ [(⟨step.id, step.op, true, some action, none⟩ : StepReceipt)],
        p.pendingAgents⟩ (t ++ [.started step.id, .completed step.id]) := by
  have hc : Causal (Allowed params) (t ++ [.started step.id, .completed step.id]) := by
    rw [append_cons]
    exact hc.append fun e he => by simpa [mem_singleton.mp he] using allowed_of_ne (by simp)
  have hpush := @push _ _ step p t [.started step.id, .completed step.id] ⟨step.id, step.op, true, some action, none⟩
    (p.actions.insert step.id action) [] h hfr (by simp [Event.step]) (by simp [startedSteps]) hc rfl (fun x hx => ?_)
    (by simp) (by simp) ⟨by simp, by simp, by simp, fun _ => .inr ⟨step, by simp, rfl, by simp [hsucc]⟩⟩
  · rwa [append_nil] at hpush
  rw [Map.get?_insert] at hx
  split at hx
  · rename_i heq
    exact .inr ⟨heq, by simp [hsucc], by simp⟩
  · exact .inl hx

/-- A launch whose agent is started. -/
theorem launch {pending : PendingAgentLaunch} (h : Flow params done p t) (hfr : step.id ∉ done.map OrchestrateStep.id)
    (hc : Causal (Allowed params) (t ++ [.started step.id])) (hpd : pending.stepId = step.id)
    (hsucc : step.success = .submitted step.id) :
    Flow params (done ++ [step]) ⟨p.actions, p.receipts ++ [(⟨step.id, step.op, true, some pending.action, none⟩ : StepReceipt)],
      p.pendingAgents ++ [{ pending with receiptIndex := p.receipts.length }]⟩ (t ++ [.started step.id]) :=
  h.push hfr (by simp [Event.step]) (by simp [startedSteps]) hc rfl (fun x hx => .inl hx) (by simp [hpd])
    (by simp [hpd, hsucc]) ⟨by simp, by simp, by simp, by simp [hpd]⟩

/-- A step that fails, before or after it is started. -/
theorem fail {error : ApiError} (h : Flow params done p t) (hfr : step.id ∉ done.map OrchestrateStep.id)
    (hes : es = [] ∨ es = [.started step.id]) (hc : Causal (Allowed params) (t ++ es)) :
    Flow params (done ++ [step]) ⟨p.actions, p.receipts ++ [(⟨step.id, step.op, false, none, some error⟩ : StepReceipt)], p.pendingAgents⟩
      (t ++ es ++ [.failed step.id]) := by
  have hc : Causal (Allowed params) (t ++ (es ++ [.failed step.id])) := by
    rw [← append_assoc]
    exact hc.append fun e he => by simpa [mem_singleton.mp he] using allowed_of_ne (by simp)
  have hpush := @push _ _ step p t (es ++ [.failed step.id]) ⟨step.id, step.op, false, none, some error⟩ p.actions [] h hfr ?_ ?_
    hc rfl (fun x hx => .inl hx) (by simp) (by simp) ⟨by simp, by simp, by simp, by simp⟩
  · rwa [append_nil, ← append_assoc] at hpush
  · rcases hes with rfl | rfl
    · simp [Event.step]
    · simp [Event.step]
  · rcases hes with rfl | rfl
    · simp [startedSteps]
    · simp [startedSteps]

end Flow

/-! ### Whole runs -/

/-- The loop ends with the invariant for the steps that were taken: all, or those up to a failure. -/
theorem runSteps_flow {done rest : List OrchestrateStep} {p : Progress} {w : World σ} (h : Flow params done p w.trace)
    (hss : params.steps = done ++ rest) (hnd : (params.steps.map OrchestrateStep.id).Nodup)
    (hc : params.onError = .stop → ∀ x, .failed x ∉ w.trace) :
    let r := runSteps host params.onError rest p w
    ∃ done' rest', params.steps = done' ++ rest' ∧ Flow params done' r.2 r.1.trace ∧
      (rest' = [] ∨ params.onError = .stop ∧ ∃ x, .failed x ∈ r.1.trace) := by
  induction rest generalizing done p w with
  | nil => exact ⟨done, [], hss, h, .inl rfl⟩
  | cons step rest ih =>
    have hd : (done.map OrchestrateStep.id).Nodup := by
      rw [hss, map_append] at hnd
      exact hnd.of_append_left
    have hfr : step.id ∉ done.map OrchestrateStep.id := Flow.fresh hss hnd
    have hss' : params.steps = (done ++ [step]) ++ rest := hss.trans (append_cons _ _ _)
    obtain ⟨hflow, hk, hf⟩ := @Flow.awaitReference σ host params done step p w h hd
    rw [runSteps]
    generalize awaitReference host step p w = r at hflow hk hf ⊢
    obtain ⟨w, p, dependencyFailed⟩ := r
    dsimp only at hflow hk hf ⊢
    split
    · rename_i hsp
      exact ⟨done, step :: rest, hss, hflow, .inr ⟨hsp.2, hf hsp.1⟩⟩
    rename_i hgo
    have hc' : params.onError = .stop → ∀ x, .failed x ∉ w.trace := by
      intro hsp x hx
      have hok : dependencyFailed = false := eq_false_iff.mpr fun hfail => hgo ⟨hfail, hsp⟩
      exact hc hsp x (hk hok x hx)
    have hexec := @executes_executeStep _ host step p.actions w.trace w rfl
    split
    · rename_i w' action heq
      rw [heq] at hexec
      obtain ⟨hsucc, ht, hr⟩ := hexec
      have hcmp := @Flow.complete params done step p w.trace action hflow hfr (hflow.start hss hnd hc' hr) hsucc
      have hl : (w'.log (.completed step.id)).trace = w.trace ++ [.started step.id, .completed step.id] := by
        simp [log, ht]
      rw [← hl] at hcmp
      refine ih hcmp hss' fun hsp x hx => ?_
      rw [hl] at hx
      exact hc' hsp x (by simpa using hx)
    · rename_i w' pending heq
      rw [heq] at hexec
      obtain ⟨⟨hpd, hsucc⟩, ht, hr⟩ := hexec
      have hlau := hflow.launch hfr (hflow.start hss hnd hc' hr) hpd hsucc
      rw [← ht] at hlau
      refine ih hlau hss' fun hsp x hx => ?_
      rw [ht] at hx
      exact hc' hsp x (by simpa using hx)
    · rename_i w' error heq
      rw [heq] at hexec
      have hfail : Flow params (done ++ [step])
          ⟨p.actions, p.receipts ++ [(⟨step.id, step.op, false, none, some error⟩ : StepReceipt)], p.pendingAgents⟩
            (w'.log (.failed step.id)).trace := by
        rcases hexec with ht | ⟨ht, hr⟩
        · have := @Flow.fail params done step p w.trace [] error hflow hfr (.inl rfl) (by simpa using hflow.causal)
          rwa [append_nil, ← ht] at this
        · have := @Flow.fail params done step p w.trace _ error hflow hfr (.inr rfl) (hflow.start hss hnd hc' hr)
          rwa [← ht] at this
      split
      · rename_i hsp
        exact ⟨done ++ [step], rest, hss', hfail, .inr ⟨hsp, step.id, by simp [log]⟩⟩
      · rename_i hcon
        exact ih hfail hss' fun hsp => absurd hsp hcon

/-- What comes of the launches that were pending at the end of the loop. -/
theorem applyFinalizations_flow {done : List OrchestrateStep} {pending : List PendingAgentLaunch} {finalizations : List AgentFinalization}
    {p : Progress} {w : World σ} (h : Flow params done { p with pendingAgents := pending } w.trace)
    (hnd : (done.map OrchestrateStep.id).Nodup)
    (hl : finalizations.map AgentFinalization.launch = pending.map fun a => (a.receiptIndex, a.stepId))
    (hs : ∀ f ∈ finalizations, f.Sound w.trace) :
    let r := applyFinalizations finalizations p w
    Flow params done { r.2 with pendingAgents := [] } r.1.trace ∧ ∀ e ∈ w.trace, e ∈ r.1.trace := by
  induction finalizations generalizing p pending w with
  | nil =>
    obtain rfl : pending = [] := by simpa using hl
    exact ⟨h, fun e he => he⟩
  | cons f finalizations ih =>
    cases pending with
    | nil => exact nomatch hl
    | cons a after =>
      rw [map_cons, map_cons, List.cons.injEq] at hl
      have hmono (e : Event) (he : e ∈ w.trace) : e ∈ (w.logOutcome f).trace := by
        rw [trace_logOutcome]
        exact mem_append_left _ he
      have hflow := @Flow.finalize params done _ w.trace a [] after f h hnd rfl hl.1 (hs f mem_cons_self)
      rw [← trace_logOutcome] at hflow
      obtain ⟨hflow, hk⟩ := @ih after (p.finalize f) (w.logOutcome f) hflow hl.2 fun g hg action ha =>
        hmono _ (hs g (mem_cons_of_mem _ hg) action ha)
      exact ⟨hflow, fun e he => hk e (hmono e he)⟩

/-! ### The receipt -/

theorem modifyTail_kept (f : Json → Json) (r : StepReceipt) :
    ((r.modifyTail f).id, (r.modifyTail f).op, (r.modifyTail f).ok, (r.modifyTail f).error.isNone) =
      (r.id, r.op, r.ok, r.error.isNone) := by
  rw [StepReceipt.modifyTail]
  split
  · rfl
  · simp

/-- The budget of the tails changes nothing but tails. -/
theorem enforceTailBudget_kept (receipts : List StepReceipt) (budget : ℕ) :
    (enforceTailBudget receipts budget).map (fun r => (r.id, r.op, r.ok, r.error.isNone)) =
      receipts.map fun r => (r.id, r.op, r.ok, r.error.isNone) := by
  simp only [enforceTailBudget]
  split
  · rfl
  rw [List.map_map]
  refine map_congr_left fun r _ => ?_
  rw [Function.comp_apply]
  split
  · exact modifyTail_kept _ r
  · rfl

section Receipt

variable (workflowId : Text) (receipts : List StepReceipt)

theorem map_steps_workflowReceipt {β : Type} (f : Text × String × Bool × Bool → β) :
    (workflowReceipt workflowId receipts).steps.map (fun r => f (r.id, r.op, r.ok, r.error.isNone)) =
      receipts.map fun r => f (r.id, r.op, r.ok, r.error.isNone) := by
  have h := congrArg (List.map f) (enforceTailBudget_kept receipts maxReceiptTailBytes)
  rw [List.map_map, List.map_map] at h
  exact h

theorem completed_workflowReceipt :
    (workflowReceipt workflowId receipts).completed = (workflowReceipt workflowId receipts).steps.countP StepReceipt.ok := by
  have h := congrArg (countP id) (map_steps_workflowReceipt workflowId receipts fun e => e.2.2.1)
  rw [countP_map, countP_map] at h
  exact countP_eq_length_filter.symm.trans h.symm

theorem failedStep_workflowReceipt : (workflowReceipt workflowId receipts).failedStep =
      ((workflowReceipt workflowId receipts).steps.find? fun r => !r.ok).map StepReceipt.id := by
  have h := congrArg (fun es => (es.find? fun e : Text × Bool => !e.2).map fst)
    (map_steps_workflowReceipt workflowId receipts fun e => (e.1, e.2.2.1))
  simp only [find?_map, Option.map_map] at h
  exact h.symm

theorem failedStep_eq_some_iff {x : Text} : (workflowReceipt workflowId receipts).failedStep = some x ↔ ∃ before r after,
      (workflowReceipt workflowId receipts).steps = before ++ r :: after ∧ r.id = x ∧ r.ok = false ∧ ∀ r' ∈ before, r'.ok = true := by
  rw [failedStep_workflowReceipt, map_eq_some_iff]
  simp only [find?_eq_some_iff_append]
  constructor
  · rintro ⟨r, ⟨hr, before, after, heq, hb⟩, rfl⟩
    exact ⟨before, r, after, heq, rfl, by simpa using hr, by simpa using hb⟩
  · rintro ⟨before, r, after, heq, rfl, hr, hb⟩
    exact ⟨r, ⟨by simpa using hr, before, after, heq, by simpa using hb⟩, rfl⟩

theorem ok_workflowReceipt :
    (workflowReceipt workflowId receipts).ok = true ↔ ∀ r ∈ (workflowReceipt workflowId receipts).steps, r.ok = true := by
  have h : (workflowReceipt workflowId receipts).ok = (workflowReceipt workflowId receipts).failedStep.isNone := rfl
  rw [h, failedStep_workflowReceipt, isNone_map, isNone_iff_eq_none, find?_eq_none]
  simp

theorem isPartial_workflowReceipt : (workflowReceipt workflowId receipts).isPartial = true ↔
    (workflowReceipt workflowId receipts).ok = false ∧ ∃ r ∈ (workflowReceipt workflowId receipts).steps, r.ok = true := by
  have h : (workflowReceipt workflowId receipts).isPartial =
      (!(workflowReceipt workflowId receipts).ok && decide ((workflowReceipt workflowId receipts).completed > 0)) := rfl
  rw [h, completed_workflowReceipt, and_eq_true, not_eq_true', decide_eq_true_eq, gt_iff_lt, countP_pos_iff]

variable {receipts} in
theorem fits_workflowReceipt {done : List OrchestrateStep} {pending : List Text} {t : List Event}
    (h : ∀ r ∈ receipts, Fits done pending t r) : ∀ r ∈ (workflowReceipt workflowId receipts).steps, Fits done pending t r := by
  intro r hr
  have hm : (r.id, r.op, r.ok, r.error.isNone) ∈ receipts.map fun r => (r.id, r.op, r.ok, r.error.isNone) := by
    rw [← map_steps_workflowReceipt workflowId receipts fun e => e]
    exact List.mem_map_of_mem hr
  obtain ⟨r', hr', heq⟩ := List.mem_map.mp hm
  rw [Prod.mk.injEq, Prod.mk.injEq, Prod.mk.injEq] at heq
  obtain ⟨hid, -, hok, he⟩ := heq
  have h := h r' hr'
  refine ⟨?_, ?_, ?_, ?_⟩
  · rw [← hid, ← hok]
    exact h.failed
  · rw [← hok, h.error, ← isNone_iff_eq_none, ← isNone_iff_eq_none, he]
  · rw [← hid, ← hok]
    exact h.started
  · rw [← hid, ← hok]
    exact h.success

end Receipt

/-- What the trace and the receipt of a workflow say of its steps. -/
structure ControlFlow (params : OrchestrateParams) (t : List Event) (receipt : WorkflowReceipt) : Prop where
  /-- The receipts are of the first steps, in their order, -/
  receipts : (receipt.steps.map fun r => (r.id, r.op)) <+: params.steps.map fun s => (s.id, s.op)
  /-- and of all steps, unless a failure has stopped the workflow. -/
  all : receipt.steps.length = params.steps.length ∨ params.onError = .stop ∧ ∃ r ∈ receipt.steps, r.ok = false
  /-- Steps are started in the order of their receipts, -/
  order : (startedSteps t).Sublist (receipt.steps.map StepReceipt.id)
  /-- and once. -/
  once : (startedSteps t).Nodup
  /-- What a step refers to is earlier, and has succeeded when the step is started. -/
  references : ∀ done step rest, params.steps = done ++ step :: rest → ∀ r, step.referencedStep = some r →
    ∀ before after, t = before ++ .started step.id :: after → Succeeded done before r
  /-- No step is started after a failure that stops the workflow. -/
  stop : params.onError = .stop → ∀ before x after, t = before ++ .failed x :: after → ∀ y, .started y ∉ after
  /-- A receipt says that its step failed if the trace does, -/
  failed : ∀ r ∈ receipt.steps, r.ok = false ↔ .failed r.id ∈ t
  /-- and that it succeeded only if it was started and did. -/
  succeeded : ∀ r ∈ receipt.steps, r.ok = true → .started r.id ∈ t ∧ Succeeded params.steps t r.id
  error : ∀ r ∈ receipt.steps, r.ok = true ↔ r.error = none
  recorded : ∀ x, .failed x ∈ t → ∃ r ∈ receipt.steps, r.id = x
  ok : receipt.ok = true ↔ ∀ r ∈ receipt.steps, r.ok = true
  completed : receipt.completed = receipt.steps.countP StepReceipt.ok
  failedStep : ∀ x, receipt.failedStep = some x ↔
    ∃ before r after, receipt.steps = before ++ r :: after ∧ r.id = x ∧ r.ok = false ∧ ∀ r' ∈ before, r'.ok = true
  isPartial : receipt.isPartial = true ↔ receipt.ok = false ∧ ∃ r ∈ receipt.steps, r.ok = true

/-- **The steps of a workflow are executed in their order**, whatever comes of them. -/
theorem execute_controlFlow {value : Json} (h : parseAndValidate host value = .ok params) (workflowId : Text)
    (schedule : List ℕ) (s : σ) :
    ControlFlow params (execute host params workflowId schedule ⟨s, []⟩).1.trace
      (execute host params workflowId schedule ⟨s, []⟩).2 := by
  have href := WellReferenced.of_parseAndValidate h
  obtain ⟨done, rest, hss, hloop, hend⟩ := @runSteps_flow σ host params [] params.steps ⟨.empty, [], []⟩ ⟨s, []⟩
    (Flow.init params) rfl href.nodup (by simp)
  have hd : (done.map OrchestrateStep.id).Nodup := by
    have hnd := href.nodup
    rw [hss, map_append] at hnd
    exact hnd.of_append_left
  simp only [execute]
  generalize runSteps host params.onError params.steps ⟨.empty, [], []⟩ ⟨s, []⟩ = r at hloop hend ⊢
  obtain ⟨w, p⟩ := r
  obtain ⟨hsub, hlau, hs⟩ := @finalizeAgents_follows _ host schedule p.pendingAgents w
  obtain ⟨hflow, hk⟩ := applyFinalizations_flow (hloop.submits hsub) hd hlau hs
  generalize applyFinalizations (finalizeAgents host schedule p.pendingAgents w).2 p (finalizeAgents host schedule p.pendingAgents w).1 = r
    at hflow hk ⊢
  obtain ⟨w', p'⟩ := r
  dsimp only at hflow hk ⊢
  have hrece : (workflowReceipt workflowId p'.receipts).steps.map (fun r => (r.id, r.op)) = done.map fun s => (s.id, s.op) :=
    (map_steps_workflowReceipt workflowId p'.receipts fun e => (e.1, e.2.1)).trans hflow.receipts
  have hids : (workflowReceipt workflowId p'.receipts).steps.map StepReceipt.id = done.map OrchestrateStep.id :=
    (map_steps_workflowReceipt workflowId p'.receipts fun e => e.1).trans hflow.ids
  have hfits := fits_workflowReceipt workflowId hflow.fits
  have hrec : ∀ x, Event.failed x ∈ w'.trace → ∃ r ∈ (workflowReceipt workflowId p'.receipts).steps, r.id = x := by
    intro x hx
    exact List.mem_map.mp (hids ▸ hflow.failures x hx)
  exact {
    receipts := by
      rw [hrece, hss, map_append]
      exact prefix_append _ _
    all := by
      rcases hend with rfl | ⟨hstop, x, hx⟩
      · left
        simpa [hss] using congrArg length hids
      · obtain ⟨r, hr, rfl⟩ := hrec x (hk _ (hsub.mem hx))
        exact .inr ⟨hstop, r, hr, (hfits r hr).failed.mpr (hk _ (hsub.mem hx))⟩
    order := hids ▸ hflow.starts
    once := hflow.starts.nodup hd
    references := fun done step rest hsp r hr before after ht =>
      (hflow.causal before _ after ht step.id rfl).2 done step rest hsp rfl r hr
    stop := fun hstop before x after ht y => hflow.causal.not_mem_after ht fun before hald => (hald y rfl).1 hstop x
    failed := fun r hr => (hfits r hr).failed
    succeeded := fun r hr hok => by
      obtain ⟨step, hst, hid, hsucc⟩ := ((hfits r hr).success hok).resolve_left (by simp)
      refine ⟨(hfits r hr).started hok, step, hss ▸ mem_append_left _ hst, hid, hsucc, fun hfail => ?_⟩
      rw [← (hfits r hr).failed, hok] at hfail
      exact nomatch hfail
    error := fun r hr => (hfits r hr).error
    recorded := hrec
    ok := ok_workflowReceipt _ _
    completed := completed_workflowReceipt _ _
    failedStep := fun x => failedStep_eq_some_iff _ _
    isPartial := isPartial_workflowReceipt _ _ }

/-- The text of a request with a tab, an agent in it, and a prompt for the agent. -/
def weatherRequest : Json :=
  object [("steps", .array [
    object [("id", text "tab"), ("op", text "new_tab")],
    object [("id", text "weather"), ("op", text "agent_launch"), ("target", object [("step", text "tab"), ("field", text "pane_id")]),
      ("name", text "weather"), ("kind", text "claude"), ("initial_prompt", text "rain?")],
    object [("id", text "again"), ("op", text "prompt"), ("target", object [("step", text "weather"), ("field", text "pane_id")]),
      ("text", text "and snow?")]])]

def weatherParams : OrchestrateParams :=
  ⟨[.newTab "tab".toList none none,
    .agentLaunch "weather".toList (.reference "tab".toList .paneId) "weather".toList "claude".toList none "rain?".toList 10000,
    .prompt "again".toList (.reference "weather".toList .paneId) "and snow?".toList true], .stop⟩

/-- A runtime with one window, in which agents are ready at once. -/
def weatherHost : Host Unit where
  dispatch command s :=
    (s, match command with
      | .newTab .. => .ok (object [("action", object [("window_id", number 7), ("pane_id", number 9)])])
      | .agentStart _ paneId .. =>
        .ok (object [("action", object [("window_id", number 7), ("pane_id", number paneId),
          ("agent", object [("agent_id", text "agent-1"), ("generation", number 1)])])])
      | _ => .ok (object [("action", object [])]))
  waitForPaneState windowId paneId _ _ _ s := (s, .ok (object [("window_id", nullable number windowId), ("pane_id", number paneId)]))
  waitAgentReady agent generation _ s := (s, .ok ((agent, generation), .idle))
  panics _ _ := false
  snapshotSeq _ _ _ := none
  verifiedAgentLaunch kind sessionId := .ok (kind, sessionId, kind)
  encodedLength _ := .ok 270
  parseParams _ := .ok weatherParams

theorem execute_controlFlow_weather :
    (execute weatherHost weatherParams "workflow-1-1".toList [] ⟨(), []⟩).1.trace =
        [.started "tab".toList, .completed "tab".toList, .started "weather".toList, .submitted "weather".toList,
          .started "again".toList, .completed "again".toList] ∧
      ControlFlow weatherParams (execute weatherHost weatherParams "workflow-1-1".toList [] ⟨(), []⟩).1.trace
        (execute weatherHost weatherParams "workflow-1-1".toList [] ⟨(), []⟩).2 :=
  ⟨by decide, @execute_controlFlow _ weatherHost _ weatherRequest rfl _ _ _⟩

end Pebrel.Runtime.Orchestrate
