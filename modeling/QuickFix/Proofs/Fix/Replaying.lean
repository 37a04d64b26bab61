import QuickFix.Proofs.Fix.Invoking

/-!
# An invocation is its calls

A fix reaches the world of its host by calls only: what every call keeps, a whole invocation keeps
(`invoke_keeps`). So the world after an invocation is the one that its calls lead to when they are
made one after the other (`Replays`), and these calls are those of a course of the fix
(`exists_replayed`).
-/

namespace QuickFix.Fix

variable {σ α β : Type} {H : Host σ} {I : σ → Prop}

/-- The session keeps what `I` says of the world. -/
def Keeps (I : σ → Prop) (p : Session σ α) : Prop := ∀ s, I s.world → I (p s).2.world

namespace Keeps

variable {p : Session σ α}

theorem pure (a : α) : Keeps I (Pure.pure a : Session σ α) := fun _ h => h

theorem log (e : Log.Event) : Keeps I (Session.log e) := fun _ h => h

theorem post (n : ErrorNotice) : Keeps I (Session.post n) := fun _ h => h

theorem call (hH : ∀ c b w, I w → I (H c b w).world) (c : Call) : Keeps I (Session.call H c) :=
  fun _ h => hH c _ _ h

theorem write (h : Keeps I p) : Keeps I (Session.write p) := fun _ hs => h _ hs

theorem bind {f : α → Session σ β} (h : Keeps I p) (hf : ∀ a, Keeps I (f a)) :
    Keeps I (p >>= f) := fun s hs => hf _ _ (h s hs)

theorem bindRun {x : Attempt σ α} {f : α → Attempt σ β} (h : Keeps I x.run)
    (hf : ∀ a, Keeps I (f a).run) : Keeps I (x >>= f).run := by
  rw [ExceptT.run_bind]
  refine h.bind fun r => ?_
  cases r with
  | ok a => exact hf a
  | error e => exact pure _

theorem attempt {p : Session σ (Except HostError α)} (h : Keeps I p) :
    Keeps I (Fix.attempt p).run := h.bind fun _ => pure _

theorem lift (h : Keeps I p) : Keeps I (ExceptT.lift p : Attempt σ α).run := fun s hs => h s hs

end Keeps

section

variable (hH : ∀ c b w, I w → I (H c b w).world)
include hH

/-! ## The parts of a fix -/

theorem makeFile_keeps (directory : DirectoryId) (f : NewFile) :
    Keeps I (makeFile H directory f).run := by
  refine (Keeps.call hH _).bind fun reply => ?_
  cases reply with
  | ok file => exact Keeps.pure _
  | error e => cases e <;> exact Keeps.pure _

theorem firstClass_keeps (name : Text) (file : FileId) :
    Keeps I (firstClass H name file).run := by
  refine (Keeps.call hH _).attempt.bindRun fun cs => ?_
  cases cs <;> exact Keeps.pure _

theorem firstAccessible?_keeps (c : ClassInfo) (origin : FileId) (vs : List Visibility) :
    Keeps I (firstAccessible? H c origin vs) := by
  induction vs with
  | nil => exact Keeps.pure _
  | cons v vs ih =>
    refine (Keeps.call hH _).bind fun answer => ?_
    cases answer with
    | true => exact Keeps.pure _
    | false => exact ih

theorem requiredVisibility?_keeps (policy : VisibilityPolicy) (c : ClassInfo) (origin : FileId) :
    Keeps I (requiredVisibility? H policy c origin) := by
  by_cases hc : c.visibility? = none ∨ c.visibility? = some .pub
  · rw [requiredVisibility?_of_fixed hc]
    exact Keeps.pure _
  · rw [not_or] at hc
    obtain ⟨u, hu⟩ := Option.ne_none_iff_exists'.1 hc.1
    rw [requiredVisibility?_eq hu fun h => hc.2 (h ▸ hu)]
    refine (Keeps.call hH _).bind fun answer => ?_
    cases answer with
    | true => exact Keeps.pure _
    | false =>
      cases policy with
      | widest => exact Keeps.pure _
      | minimal => exact (firstAccessible?_keeps hH c origin u.wider).bind fun _ => Keeps.pure _

theorem widen_keeps (policy : VisibilityPolicy) (c : ClassInfo) (origin : FileId) :
    Keeps I (widen H policy c origin).run := by
  refine (requiredVisibility?_keeps hH policy c origin).lift.bindRun fun level? => ?_
  cases level? with
  | none => exact Keeps.pure _
  | some v => exact (Keeps.call hH _).attempt.bindRun fun _ => Keeps.pure _

theorem giveConstructor_keeps (isWanted : Bool) (c : ClassInfo) :
    Keeps I (giveConstructor H isWanted c).run := by
  unfold giveConstructor
  split
  · exact (Keeps.call hH _).attempt.bindRun fun _ => Keeps.pure _
  · exact Keeps.pure _

theorem reread_keeps (c : ClassInfo) (file : FileId) : Keeps I (reread H c file).run := by
  refine (Keeps.call hH _).attempt.bindRun fun ds => ?_
  cases ds.find? fun d => d.name = c.name with
  | some d => exact Keeps.pure _
  | none => exact (Keeps.log _).lift.bindRun fun _ => Keeps.pure _

theorem giveImport_keeps (c : ClassInfo) (origin : FileId) (current : PackageName) :
    Keeps I (giveImport H c origin current) := by
  unfold giveImport
  split
  · exact Keeps.pure _
  · refine (Keeps.call hH _).bind fun reply => ?_
    cases reply with
    | ok u => exact Keeps.pure _
    | error e => exact (Keeps.log _).bind fun _ => Keeps.pure _

theorem editClass_keeps (policy : VisibilityPolicy) (root : Root) (isWanted : Bool) (file : FileId)
    (c : ClassInfo) : Keeps I (editClass H policy root isWanted file c).run :=
  (widen_keeps hH policy c root.file).bindRun fun _ =>
    (giveConstructor_keeps hH isWanted c).bindRun fun _ =>
      (reread_keeps hH c file).bindRun fun d =>
        (giveImport_keeps hH d root.file root.package).lift.bindRun fun _ => Keeps.pure _

variable (fix : CreateClass) (s : CreateSettings) (root : Root)

theorem create_keeps (request : CreationRequest) (directory : DirectoryId) :
    Keeps I (fix.create H s root request directory).run := by
  by_cases h : request.className = []
  · unfold CreateClass.create
    rw [h]
    exact Keeps.pure _
  · rw [create_named h]
    exact (makeFile_keeps hH directory _).bindRun fun file =>
      (firstClass_keeps hH _ file).bindRun fun c =>
        (Keeps.log _).lift.bindRun fun _ => editClass_keeps hH _ _ _ _ _

omit hH in
theorem report_keeps (f : Failure) : Keeps I (fix.report f : Session σ Outcome) := by
  cases f with
  | cancelled => exact Keeps.pure _
  | noClass name cause =>
    exact (Keeps.log _).bind fun _ => (Keeps.post _).bind fun _ => Keeps.pure _
  | host e => exact (Keeps.log _).bind fun _ => Keeps.pure _

theorem navigate_keeps (c : ClassInfo) : Keeps I (navigate H c) := by
  refine (Keeps.call hH _).bind fun path? => ?_
  cases path? with
  | none => exact Keeps.pure _
  | some path =>
    refine (Keeps.call hH _).bind fun reply => ?_
    cases reply with
    | ok u => exact Keeps.pure _
    | error e => exact (Keeps.log _).bind fun _ => Keeps.pure _

theorem runAt_keeps (place : Snapshot) : Keeps I (fix.runAt H s place root) := by
  refine (Keeps.call hH _).bind fun module? => (Keeps.call hH _).bind fun answer? => ?_
  cases answer? with
  | none => exact Keeps.pure _
  | some request =>
    dsimp only
    cases request.directory? with
    | none => exact (Keeps.log _).bind fun _ => Keeps.pure _
    | some directory =>
      refine (create_keeps hH fix s root request directory).write.bind fun r => ?_
      cases r with
      | error f => exact report_keeps fix f
      | ok c => exact (navigate_keeps hH c.declared).bind fun _ => Keeps.pure _

/-- **What every call keeps, an invocation keeps.** -/
theorem invoke_keeps (place : Snapshot) : Keeps I (fix.invoke H s place) := by
  cases hroot : fix.root? place with
  | none =>
    rw [invoke_of_root?_none hroot]
    exact Keeps.pure _
  | some root =>
    intro t ht
    cases hw : t.isWriting with
    | true =>
      rw [invoke_of_isWriting hroot hw]
      exact ht
    | false =>
      rw [invoke_of_not_isWriting hroot hw]
      exact runAt_keeps hH fix s root place t ht

end

/-! ## Calls made again -/

/-- The calls, made one after the other from the world `w`, have these answers and lead to the world
`w'`. -/
inductive Replays (H : Host σ) : σ → List Observation → σ → Prop
  | nil (w : σ) : Replays H w [] w
  | call {w w' : σ} {tr : List Observation} (c : Call) (b : Bool)
    (h : Replays H (H c b w).world tr w') : Replays H w (⟨c, b, (H c b w).reply⟩ :: tr) w'

theorem Replays.concat {w w' : σ} {tr : List Observation} (h : Replays H w tr w') (c : Call)
    (b : Bool) : Replays H w (tr ++ [⟨c, b, (H c b w').reply⟩]) (H c b w').world := by
  induction h with
  | nil w => exact .call c b (.nil _)
  | call c' b' _ ih => exact .call c' b' ih

theorem replays_nil_iff {w w' : σ} : Replays H w [] w' ↔ w' = w :=
  ⟨fun h => by cases h; rfl, fun h => by rw [h]; exact .nil w⟩

theorem replays_cons_iff {w w' : σ} {o : Observation} {tr : List Observation} :
    Replays H w (o :: tr) w' ↔ o.reply = (H o.call o.isWriting w).reply ∧
      Replays H (H o.call o.isWriting w).world tr w' := by
  constructor
  · intro h
    cases h with
    | call c b h => exact ⟨rfl, h⟩
  · obtain ⟨c, b, reply⟩ := o
    rintro ⟨hreply, h⟩
    obtain rfl : reply = (H c b w).reply := hreply
    exact .call c b h

/-- What every call of the kind `P` keeps, such calls keep one after the other. -/
theorem Replays.keeps {P : Observation → Prop} {w w' : σ} {tr : List Observation}
    (h : Replays H w tr w') (hP : ∀ o ∈ tr, P o)
    (hH : ∀ c b w, P ⟨c, b, (H c b w).reply⟩ → I w → I (H c b w).world) (hw : I w) : I w' := by
  induction h with
  | nil => exact hw
  | call c b _ ih =>
    obtain ⟨ho, htr⟩ := List.forall_mem_cons.1 hP
    exact ih htr (hH c b _ ho hw)

variable (H) (fix : CreateClass) (s : CreateSettings) (place : Snapshot) (w : σ) (depth : Nat)

/-- The calls of an invocation, in order. -/
def CreateClass.calls : List Observation :=
  (fix.invoke H.observed s place ⟨(w, []), depth, none, []⟩).2.world.2

/-- An invocation leaves the world that its calls lead to, and they are those of a course. -/
theorem exists_replayed :
    let run := fix.invoke H s place ⟨w, depth, none, []⟩
    Replays H w (fix.calls H s place w depth) run.2.world ∧
      ∃ ws, Course fix s place (0 < depth) run.1 (fix.calls H s place w depth) run.2.notice? ws := by
  intro run
  let seen := fix.invoke H.observed s place ⟨(w, []), depth, none, []⟩
  have hreplays : Replays H w seen.2.world.2 seen.2.world.1 := by
    refine invoke_keeps (H := H.observed) (I := fun v => Replays H w v.2 v.1) ?_ fix s place _
      (.nil w)
    exact fun c b v hv => hv.concat c b
  suffices h : seen.2.world.1 = run.2.world ∧
      ∃ ws, Course fix s place (0 < depth) run.1 seen.2.world.2 run.2.notice? ws from
    ⟨h.1 ▸ hreplays, h.2⟩
  cases hroot : fix.root? place with
  | none =>
    have hrun : run = (.notApplicable, _) := congrFun (invoke_of_root?_none hroot) _
    have hseen : seen = (.notApplicable, _) := congrFun (invoke_of_root?_none hroot) _
    rw [hrun, hseen]
    exact ⟨rfl, [], .notApplicable (.inl hroot)⟩
  | some root =>
    by_cases hd : 0 < depth
    · have hrun : run = (.notApplicable, _) := invoke_of_isWriting hroot (decide_eq_true hd)
      have hseen : seen = (.notApplicable, _) := invoke_of_isWriting hroot (decide_eq_true hd)
      rw [hrun, hseen]
      exact ⟨rfl, [], .notApplicable (.inr (decide_eq_true hd))⟩
    · obtain rfl : depth = 0 := by omega
      have hrun : run = _ := invoke_of_not_isWriting hroot rfl
      have hseen : seen = _ := invoke_of_not_isWriting hroot rfl
      have hm : Mirrors (⟨w, 0, none, []⟩ : Situation σ) ⟨(w, []), 0, none, []⟩ := ⟨rfl, rfl, rfl⟩
      obtain ⟨hr, hm', -, tr, own, hw, -, hcourse⟩ :=
        runAt_ends (H := H) fix s place root hroot _ _ hm rfl rfl
      rw [hrun, hseen]
      refine ⟨hm'.world, openings own, ?_⟩
      rw [hw]
      exact hcourse

end QuickFix.Fix
