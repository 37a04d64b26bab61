import QuickFix.Proofs.Fix.Creating

/-!
# The order of a fix's calls

A fix asks where it stands, then the user, then does all its work on the project within one write
action, and shows the new class when that is closed. `invoke_course` says so for every host.
-/

namespace QuickFix.Fix

/-- The notice that a failure leaves: only a template that made no class leaves one. -/
def Failure.notice? : Failure → Option ErrorNotice
  | .cancelled => none
  | .noClass name cause => some ⟨cannotCreateText name cause, Message.cannotCreateTitle.pattern⟩
  | .host _ => none

/-- The ways to show the class `c`, with the calls that are made for it. -/
inductive Showing (c : ClassInfo) : Navigation → List Observation → Prop
  | skipped : Showing c .skipped [⟨.pathOf c.file, false, none⟩]
  | opened (path : Text) : Showing c (.opened path c.span.start)
    [⟨.pathOf c.file, false, some path⟩, ⟨.openEditor path c.span.start true, false, .ok ()⟩]
  | failed (path : Text) (e : HostError) : Showing c .failed
    [⟨.pathOf c.file, false, some path⟩, ⟨.openEditor path c.span.start true, false, .error e⟩]

/-- The ways in which the fix goes on when the user has answered: what comes of it, the calls, the
notice that is left and the write actions that are opened. -/
inductive Answered (fix : CreateClass) (s : CreateSettings) (root : Root) :
    Option CreationRequest → Outcome → List Observation → Option ErrorNotice → List Log.Event → Prop
  | refused : Answered fix s root none .cancelled [] none []
  | undirected {request : CreationRequest} (h : request.directory? = none) :
    Answered fix s root (some request) .cancelled [] none []
  | unnamed {request : CreationRequest} {directory : DirectoryId}
    (hd : request.directory? = some directory) (h : request.className = []) :
    Answered fix s root (some request) .cancelled [] none [Schedule.startedEvent 1]
  | failed {request : CreationRequest} {directory : DirectoryId}
    (hd : request.directory? = some directory) (h : request.className ≠ []) {f : Failure}
    {tr : List Observation} (hflag : ∀ o ∈ tr, o.isWriting = true)
    (htr : Creation s.policy root request directory (fix.newFile s request) (.error f) tr) :
    Answered fix s root (some request) .failed tr f.notice? [Schedule.startedEvent 1]
  | created {request : CreationRequest} {directory : DirectoryId}
    (hd : request.directory? = some directory) (h : request.className ≠ []) {c : Created}
    {tr : List Observation} (hflag : ∀ o ∈ tr, o.isWriting = true)
    (htr : Creation s.policy root request directory (fix.newFile s request) (.ok c) tr)
    {navigation : Navigation} {tr' : List Observation}
    (hshow : Showing c.declared navigation tr') :
    Answered fix s root (some request) (.created c navigation) (tr ++ tr') none
      [Schedule.startedEvent 1]

/-- The ways in which the fix goes. -/
inductive Course (fix : CreateClass) (s : CreateSettings) (place : Snapshot) (isWriting : Bool) :
    Outcome → List Observation → Option ErrorNotice → List Log.Event → Prop
  | notApplicable (h : fix.root? place = none ∨ isWriting = true) :
    Course fix s place isWriting .notApplicable [] none []
  | asked {root : Root} (hroot : fix.root? place = some root) (hw : isWriting = false)
    (module? : Option ModuleId) (answer? : Option CreationRequest) {r : Outcome}
    {tr : List Observation} {notice? : Option ErrorNotice} {ws : List Log.Event}
    (h : Answered fix s root answer? r tr notice? ws) :
    Course fix s place isWriting r
      (⟨.moduleOf place.file, false, module?⟩ ::
        ⟨.askUser (fix.dialog root module?), false, answer?⟩ :: tr) notice? ws

section

variable {σ : Type} {H : Host σ} {fix : CreateClass} {s : CreateSettings} {root : Root}

theorem navigate_traced (c : ClassInfo) :
    Traced false (navigate H c) (navigate H.observed c) (Showing c) := by
  unfold navigate
  refine Traced.bind Traced.call fun path? tr htr => ?_
  subst htr
  cases path? with
  | none => exact Traced.pure .skipped
  | some path =>
    refine Traced.bind Traced.call fun reply tr htr => ?_
    subst htr
    cases reply with
    | ok u => exact Traced.pure (.opened path)
    | error e =>
      refine Traced.bind (Traced.log rfl) fun u tr htr => ?_
      subst htr
      exact Traced.pure (.failed path e)

theorem report_ends {f : Failure} (hf : f ≠ .cancelled) :
    Ends (fix.report f : Session σ Outcome) (fix.report f) fun r tr notice? ws =>
      r = .failed ∧ tr = [] ∧ notice? = f.notice? ∧ ws = [] := by
  cases f with
  | cancelled => exact absurd rfl hf
  | noClass name cause =>
    refine Ends.bind (Traced.log rfl) fun u tr _ htr => ?_
    subst htr
    exact Ends.post ⟨rfl, rfl, rfl, rfl⟩
  | host e =>
    refine Ends.of_traced (Traced.bind (Traced.log rfl) fun u tr htr => ?_)
    subst htr
    exact Traced.pure ⟨rfl, rfl, rfl, rfl⟩

theorem Creation.ne_cancelled {policy : VisibilityPolicy} {request : CreationRequest}
    {directory : DirectoryId} {file : NewFile} {f : Failure} {tr : List Observation}
    (h : Creation policy root request directory file (.error f) tr) :
    f ≠ .cancelled := by
  intro hf
  cases h with
  | unmade e => cases e <;> cases hf
  | unread file e => cases hf
  | classless file => cases hf
  | edited file c cs htr =>
    cases htr with
    | stopped hopen htr => cases hf

theorem runAt_ends (fix : CreateClass) (s : CreateSettings) (place : Snapshot) (root : Root)
    (hroot : fix.root? place = some root) :
    Ends (fix.runAt H s place root) (fix.runAt H.observed s place root)
      (Course fix s place false) := by
  unfold CreateClass.runAt
  refine Ends.bind Traced.call fun module? tr _ htr => ?_
  subst htr
  refine Ends.bind Traced.call fun answer? tr _ htr => ?_
  subst htr
  cases answer? with
  | none => exact Ends.of_traced (Traced.pure (.asked hroot rfl module? none .refused))
  | some request =>
    dsimp only
    cases hd : request.directory? with
    | none =>
      refine Ends.of_traced (Traced.bind (Traced.log rfl) fun u tr htr => ?_)
      subst htr
      exact Traced.pure (.asked hroot rfl module? (some request) (.undirected hd))
    | some directory =>
      by_cases hname : request.className = []
      · refine Ends.write (create_unnamed hname) ?_
        rintro _ _ - ⟨rfl, rfl⟩
        exact Ends.of_traced (Traced.pure
          (.asked hroot rfl module? (some request) (.unnamed hd hname)))
      · refine Ends.write (create_traced hname) fun r tr hflag htr => ?_
        cases r with
        | error f =>
          refine Ends.mono (report_ends htr.ne_cancelled) ?_
          rintro _ _ _ _ ⟨rfl, rfl, rfl, rfl⟩
          rw [List.append_nil]
          exact .asked hroot rfl module? (some request) (.failed hd hname hflag htr)
        | ok c =>
          refine Ends.of_traced ?_
          refine Traced.bind (navigate_traced c.declared) fun navigation tr' hshow => ?_
          refine Traced.pure ?_
          rw [List.append_nil]
          exact .asked hroot rfl module? (some request) (.created hd hname hflag htr hshow)

theorem invoke_of_root?_none {place : Snapshot} (h : fix.root? place = none) :
    fix.invoke H s place = pure .notApplicable := by
  unfold CreateClass.invoke
  rw [h]

theorem invoke_of_isWriting {place : Snapshot} (h : fix.root? place = some root)
    {t : Situation σ} (ht : t.isWriting = true) :
    fix.invoke H s place t =
      (.notApplicable, { t with events := t.events ++ [writingEvent fix.reference.name] }) := by
  unfold CreateClass.invoke
  rw [h]
  show (if t.isWriting then _ else _ : Session σ Outcome) t = _
  rw [ht]
  rfl

theorem invoke_of_not_isWriting {place : Snapshot} (h : fix.root? place = some root)
    {t : Situation σ} (ht : t.isWriting = false) :
    fix.invoke H s place t = fix.runAt H s place root t := by
  unfold CreateClass.invoke
  rw [h]
  show (if t.isWriting then _ else _ : Session σ Outcome) t = _
  rw [ht]
  rfl

/-- **The calls of a fix, for every host.** The run of the fix against a host and the run that writes
the calls down come to the same, and the calls, the notice and the write actions are those of one of
the ways in which a fix goes. -/
theorem CreateClass.invoke_course (H : Host σ) (fix : CreateClass) (s : CreateSettings)
    (place : Snapshot) (w : σ) (depth : Nat) :
    let run := fix.invoke H s place ⟨w, depth, none, []⟩
    let seen := fix.invoke H.observed s place ⟨(w, []), depth, none, []⟩
    (seen.1 = run.1 ∧ seen.2.world.1 = run.2.world ∧ seen.2.notice? = run.2.notice? ∧
        seen.2.depth = run.2.depth) ∧ run.2.depth = depth ∧
      Course fix s place (0 < depth) run.1 seen.2.world.2 run.2.notice?
        (openings seen.2.events) := by
  intro run seen
  have hm : Mirrors (⟨w, depth, none, []⟩ : Situation σ) ⟨(w, []), depth, none, []⟩ :=
    ⟨rfl, rfl, rfl⟩
  cases hroot : fix.root? place with
  | none =>
    have hrun : run = (.notApplicable, ⟨w, depth, none, []⟩) := by
      rw [show run = _ from congrFun (invoke_of_root?_none hroot) _]
      rfl
    have hseen : seen = (.notApplicable, ⟨(w, []), depth, none, []⟩) := by
      rw [show seen = _ from congrFun (invoke_of_root?_none hroot) _]
      rfl
    rw [hrun, hseen]
    exact ⟨⟨rfl, rfl, rfl, rfl⟩, rfl, .notApplicable (.inl hroot)⟩
  | some root =>
    by_cases hd : 0 < depth
    · have hrun : run = _ := invoke_of_isWriting hroot (decide_eq_true hd)
      have hseen : seen = _ := invoke_of_isWriting hroot (decide_eq_true hd)
      rw [hrun, hseen]
      refine ⟨⟨rfl, rfl, rfl, rfl⟩, rfl, ?_⟩
      exact .notApplicable (.inr (decide_eq_true hd))
    · have hzero : depth = 0 := by omega
      subst hzero
      have hrun : run = _ := invoke_of_not_isWriting hroot rfl
      have hseen : seen = _ := invoke_of_not_isWriting hroot rfl
      obtain ⟨hr, hm', hdepth, tr, own, hw, he, hcourse⟩ :=
        runAt_ends fix s place root hroot _ _ hm rfl rfl
      rw [hrun, hseen]
      refine ⟨⟨hr, hm'.world, hm'.notice?, hm'.depth⟩, hdepth, ?_⟩
      rw [hw, he]
      exact hcourse

end

end QuickFix.Fix
