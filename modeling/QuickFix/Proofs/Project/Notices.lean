import QuickFix.Proofs.Project.Aborting

/-!
# Errors that are shown later

An invocation whose template makes no class leaves a notice, which is shown when the queue is
pumped. `Invokes` is a run of the machine with the invocations that are made on the way. The notices
that were shown and those that still wait are, in order, those of the invocations whose template made
no class (`rejections_noticed`).
-/

namespace QuickFix

open QuickFix.Fix

namespace Project

/-! ## Invocations whose template makes no class -/

/-- Why a template made no class. -/
inductive Rejection where
  /-- The host refused to make the file of the class `name`. -/
  | refused (name cause : Text)
  /-- There is no class in the file that was made for the class `name`. -/
  | classless (name : Text)

/-- What the user is told about a template that made no class. -/
def Rejection.notice : Rejection → ErrorNotice
  | .refused name cause => ⟨cannotCreateText name cause, Message.cannotCreateTitle.pattern⟩
  | .classless name =>
    ⟨cannotCreateText name Message.noClass.pattern, Message.cannotCreateTitle.pattern⟩

/-- What came of an invocation, and the calls that it made. -/
structure Invocation where
  outcome : Outcome
  calls : List Observation

/-- Why the template made no class, as the answers to the calls behind the dialog say it. -/
def rejection? : List Observation → Option Rejection
  | [_, _, ⟨.createFile _ f, _, .error (.incorrectOperation cause)⟩] =>
    some (.refused f.className cause)
  | [_, _, ⟨.createFile _ f, _, .ok _⟩, ⟨.classesOf _, _, .ok []⟩] =>
    some (.classless f.className)
  | _ => none

/-- Why the template made no class, if the invocation failed for that. -/
def Invocation.rejection? (i : Invocation) : Option Rejection :=
  if i.outcome = .failed then Project.rejection? i.calls else none

theorem notice?_of_course {fix : CreateClass} {s : CreateSettings} {place : Snapshot} {b : Bool}
    {r : Outcome} {tr : List Observation} {notice? : Option ErrorNotice} {ws : List Log.Event}
    (h : Course fix s place b r tr notice? ws) :
    notice? = (Invocation.rejection? ⟨r, tr⟩).map Rejection.notice := by
  cases h with
  | notApplicable => rfl
  | asked hroot hw module? answer? h =>
    cases h with
    | refused | undirected | unnamed | created => rfl
    | failed hd hname hflag htr =>
      cases htr with
      | unmade e => cases e <;> rfl
      | unread => rfl
      | classless => rfl
      | edited file c cs htr =>
        cases htr with
        | stopped => rfl

/-! ## Calls that leave no trace -/

/-- Neither errors that were shown nor violations differ. -/
structure Quiet (p q : Project) : Prop where
  errors : q.errors = p.errors
  violations : q.violations = p.violations

/-- The call is made where it belongs, and shows no error. -/
def InPlace (o : Observation) : Prop :=
  violation? o.call o.isWriting = none ∧ ∀ n, o.call ≠ .showError n

section

variable {p q r : Project}

theorem Quiet.refl (p : Project) : Quiet p p := ⟨rfl, rfl⟩

theorem Quiet.trans (h : Quiet p q) (h' : Quiet q r) : Quiet p r :=
  ⟨h'.errors.trans h.errors, h'.violations.trans h.violations⟩

theorem quiet_editClass (p : Project) (c : ClassInfo)
    (edit : Declaration → Text → Except StaleDeclaration (Option Edit)) :
    Quiet p (p.editClass c edit).2 := by
  obtain ⟨fs, hq, -⟩ := exists_editClass p c edit
  rw [hq]
  exact ⟨rfl, rfl⟩

theorem quiet_createFile (p : Project) (d : DirectoryId) (f : NewFile) :
    Quiet p (p.createFile d f).2.1 := by
  obtain ⟨new, hq, -⟩ := exists_createFile p d f
  rw [hq]
  exact ⟨rfl, rfl⟩

theorem quiet_addImport (p : Project) (id : FileId) (q : QualifiedName) :
    Quiet p (p.addImport id q).2 := by
  obtain ⟨_, _, _, hq, -⟩ := exists_addImport p id q
  rw [hq]
  exact ⟨rfl, rfl⟩

theorem quiet_openEditor (p : Project) (path : Text) (offset : Nat) (focus : Bool) :
    Quiet p (p.openEditor path offset focus).2 := by
  obtain ⟨_, _, hq⟩ := exists_openEditor p path offset focus
  rw [hq]
  exact ⟨rfl, rfl⟩

theorem quiet_host {c : Call} {b : Bool} {reply : c.Reply} (h : InPlace ⟨c, b, reply⟩)
    (p : Project) : Quiet p (host c b p).world := by
  have hp : Quiet p (p.enter c b) := by
    rw [enter_of_violation?_none h.1]
    exact ⟨rfl, rfl⟩
  refine hp.trans ?_
  let q := p.enter c b
  cases c with
  | createFile d f => exact quiet_createFile q d f
  | setVisibility c v => exact quiet_editClass q c fun d => d.visibilityEdit v
  | addConstructor c => exact quiet_editClass q c Declaration.constructorEdit
  | addImport id name => exact quiet_addImport q id name
  | openEditor path offset focus => exact quiet_openEditor q path offset focus
  | showError n => exact absurd rfl (h.2 n)
  | moduleOf _ | askUser _ | classesOf _ | isAccessible _ _ | pathOf _ => exact ⟨rfl, rfl⟩

end

/-! ## The calls of an invocation -/

section

variable {fix : CreateClass} {s : CreateSettings}

/-- In a write action all is in its place that is not for the user to see. -/
theorem inPlace_of_writing {ob : Observation} (hw : ob.isWriting = true)
    (h : affinity ob.call ≠ .outside) : InPlace ob := by
  obtain ⟨c, b, reply⟩ := ob
  obtain rfl : b = true := hw
  refine ⟨?_, fun n hn => h (by rw [hn]; rfl)⟩
  cases c with
  | askUser | openEditor | showError => exact absurd rfl h
  | _ => rfl

theorem affinity_of_editCall {file : FileId} {c : ClassInfo} {call : Call}
    (h : EditCall file c call) : affinity call ≠ .outside := by
  cases h <;> simp [affinity]

theorem affinity_of_creation {policy : VisibilityPolicy} {root : Root} {request : CreationRequest}
    {d : DirectoryId} {nf : NewFile} {r : Except Failure Created} {tr : List Observation}
    (h : Creation policy root request d nf r tr) : ∀ ob ∈ tr, affinity ob.call ≠ .outside := by
  have hcreate : affinity (.createFile d nf) ≠ .outside := by simp [affinity]
  have hread (file : FileId) : affinity (.classesOf file) ≠ .outside := by simp [affinity]
  cases h with
  | unmade e => exact List.forall_mem_singleton.2 hcreate
  | unread file | classless file =>
    exact List.forall_mem_cons.2 ⟨hcreate, List.forall_mem_singleton.2 (hread file)⟩
  | edited file c cs htr =>
    refine List.forall_mem_cons.2 ⟨hcreate, List.forall_mem_cons.2 ⟨hread file, fun ob hob => ?_⟩⟩
    rcases htr.editCall hob with hcall | ⟨q, _, hcall, -⟩
    · exact affinity_of_editCall hcall
    · simp [hcall, affinity]

/-- Every call of an invocation is made where it belongs. -/
theorem inPlace_of_course {place : Snapshot} {b : Bool} {r : Outcome} {tr : List Observation}
    {notice? : Option ErrorNotice} {ws : List Log.Event}
    (h : Course fix s place b r tr notice? ws) : ∀ ob ∈ tr, InPlace ob := by
  cases h with
  | notApplicable => exact List.forall_mem_nil _
  | asked hroot hw module? answer? h =>
    refine List.forall_mem_cons.2 ⟨⟨rfl, by simp⟩, List.forall_mem_cons.2 ⟨⟨rfl, by simp⟩, ?_⟩⟩
    cases h with
    | refused | undirected | unnamed => exact List.forall_mem_nil _
    | failed hd hname hflag htr =>
      exact fun ob hob => inPlace_of_writing (hflag ob hob) (affinity_of_creation htr ob hob)
    | created hd hname hflag htr hshow =>
      refine List.forall_mem_append.2 ⟨fun ob hob =>
        inPlace_of_writing (hflag ob hob) (affinity_of_creation htr ob hob), ?_⟩
      cases hshow with
      | skipped => exact List.forall_mem_singleton.2 ⟨rfl, by simp⟩
      | opened | failed =>
        exact List.forall_mem_cons.2 ⟨⟨rfl, by simp⟩, List.forall_mem_singleton.2 ⟨rfl, by simp⟩⟩

theorem quiet_invoke (o : Override) (fix : CreateClass) (s : CreateSettings) (place : Snapshot)
    (w : World) (depth : Nat) :
    Quiet w.1 (fix.invoke (o.before host) s place ⟨w, depth, none, []⟩).2.world.1 := by
  obtain ⟨hr, ws, hc⟩ := exists_replayed (o.before host) fix s place w depth
  exact keeps_of_replays hr (inPlace_of_course hc) (fun _ _ _ q hin hq => hq.trans (quiet_host hin q))
    (.refl _)

end

/-! ## Actions -/

/-- The action calls the host by the fix only. -/
def Action.IsIndirect (a : Action) : Prop := ∀ c, a ≠ .call c

/-- The invocation that an action makes, if it makes one. -/
def invocation? (o : Override) (s : CreateSettings) (a : Action) (v : Schedule.View) (w : World) :
    Option Invocation :=
  match a with
  | .offer fix id false => (w.1.file? id).map fun f =>
    ⟨(fix.invoke (o.before host) s (f.snapshot id) ⟨w, v.depth, none, []⟩).1,
      fix.calls (o.before host) s (f.snapshot id) w v.depth⟩
  | _ => none

/-- What the user is told of some invocations, sooner or later. -/
def toldOf (is : List Invocation) : List ErrorNotice :=
  (is.filterMap Invocation.rejection?).map Rejection.notice

theorem toldOf_append (is is' : List Invocation) : toldOf (is ++ is') = toldOf is ++ toldOf is' := by
  unfold toldOf
  rw [List.filterMap_append, List.map_append]

theorem toldOf_toList (i? : Option Invocation) :
    toldOf i?.toList = ((i?.bind Invocation.rejection?).map Rejection.notice).toList := by
  cases i? with
  | none => rfl
  | some i => cases h : i.rejection? <;> simp [toldOf, h]

section

variable {o : Override} {s : CreateSettings} {a : Action} {v : Schedule.View} {w : World}

theorem quiet_offer (fix : CreateClass) (id : FileId) (isOnlyOffered : Bool) :
    Quiet w.1 (offer (o.before host) s fix id isOnlyOffered v w).world.1 ∧
      (offer (o.before host) s fix id isOnlyOffered v w).notice?.toList =
        toldOf (invocation? o s (.offer fix id isOnlyOffered) v w).toList := by
  cases hf : w.1.file? id with
  | none =>
    cases isOnlyOffered <;> simp only [offer, invocation?, hf, Option.map_none] <;>
      exact ⟨.refl _, rfl⟩
  | some f =>
    cases isOnlyOffered with
    | true =>
      simp only [offer, hf]
      exact ⟨.refl _, rfl⟩
    | false =>
      obtain ⟨-, ws, hc⟩ := exists_replayed (o.before host) fix s (f.snapshot id) w v.depth
      simp only [offer, invocation?, hf, Option.map_some, toldOf_toList]
      exact ⟨quiet_invoke o fix s (f.snapshot id) w v.depth,
        congrArg Option.toList (notice?_of_course hc)⟩

/-- An action shows no error, and leaves the notice of the invocation that it makes. -/
theorem quiet_act (h : a.IsIndirect) :
    Quiet w.1 (act (o.before host) s a v w).world.1 ∧
      (act (o.before host) s a v w).notice?.toList = toldOf (invocation? o s a v w).toList := by
  cases a with
  | offer fix id isOnlyOffered => exact quiet_offer fix id isOnlyOffered
  | call c => exact absurd rfl (h c)
  | addDirectory package isStored =>
    simp only [act, addDirectory]
    cases packageOf package <;> exact ⟨⟨rfl, rfl⟩, rfl⟩
  | addFile d name kind text =>
    simp only [act, addFile]
    cases w.1.directory? d <;> exact ⟨⟨rfl, rfl⟩, rfl⟩
  | sealPackage package =>
    simp only [act, sealPackage]
    cases packageOf package <;> exact ⟨⟨rfl, rfl⟩, rfl⟩
  | failNext fault e => cases fault <;> exact ⟨⟨rfl, rfl⟩, rfl⟩
  | setTemplate | overwriteAfterNextEdit | setDialog | textOf | findFile | showHost =>
    exact ⟨⟨rfl, rfl⟩, rfl⟩

end

/-! ## Runs -/

/-- The invocation that the next step of a machine makes, if it makes one. -/
def nextInvocation? (o : Override) (s : CreateSettings) (m : Machine) : Option Invocation :=
  match m.stack with
  | .steps (.act a :: _) :: _ => invocation? o s a m.view m.world
  | _ => none

/-- A run of some machine steps, with the invocations that are made in it. -/
inductive Invokes (o : Override) (s : CreateSettings) : Machine → List Invocation → Machine → Prop
  | refl (m : Machine) : Invokes o s m [] m
  | step {m m₁ n : Machine} {is : List Invocation}
    (hm : m.next? (meaning (o.before host) s) = some m₁) (hn : Invokes o s m₁ is n) :
    Invokes o s m ((nextInvocation? o s m).toList ++ is) n

/-- The errors that were shown, and those that wait to be shown. -/
def told (m : Machine) : List ErrorNotice := m.world.1.errors ++ Schedule.notices m.queue

section

variable {o : Override} {s : CreateSettings} {m n : Machine}

theorem exists_invokes {h : List (Schedule.Happening Action ErrorNotice)}
    (hr : Schedule.Machine.Runs (meaning (o.before host) s) m h n) : ∃ is, Invokes o s m is n := by
  induction hr with
  | refl m => exact ⟨[], .refl m⟩
  | step hm _ ih =>
    obtain ⟨is, his⟩ := ih
    exact ⟨_, .step hm his⟩

/-- A step tells of the invocation that it makes, and of nothing else. -/
theorem told_next (hm : m.next? (meaning (o.before host) s) = some n) (hs : m.Sound)
    (ha : m.All Action.IsIndirect) :
    told n = told m ++ toldOf (nextInvocation? o s m).toList ∧
      n.world.1.violations = m.world.1.violations := by
  unfold told
  cases Schedule.Machine.turn_of_next? hm with
  | silent hw hn hs' =>
    have hnone : nextInvocation? o s m = none := by
      unfold nextInvocation?
      split
      · rename_i a ss k hk
        exact absurd hk (hs' a ss k)
      · rfl
    rw [hw, hn, hnone]
    exact ⟨(List.append_nil _).symm, rfl⟩
  | @acted a ss k hs' hw hn =>
    have hall : Schedule.Frame.All Action.IsIndirect (.steps (.act a :: ss)) :=
      ha.stack (hs' ▸ List.mem_cons_self)
    have hnext : nextInvocation? o s m = invocation? o s a m.view m.world := by
      unfold nextInvocation?
      rw [hs']
    obtain ⟨hquiet, hnotice⟩ := quiet_act (o := o) (s := s) (v := m.view) (w := m.world) hall.1
    have hquiet : Quiet m.world.1 n.world.1 := hw ▸ hquiet
    have hnotice : Schedule.notices n.queue = Schedule.notices m.queue ++
        toldOf (nextInvocation? o s m).toList := by
      rw [hn, hnext, ← hnotice]
      rfl
    exact ⟨by rw [hquiet.errors, hnotice, List.append_assoc], hquiet.violations⟩
  | @noticed ran e js k hs' hq hw hn =>
    have hnone : nextInvocation? o s m = none := by
      unfold nextInvocation?
      rw [hs']
    -- No write action is open around a pump, so the notice is shown where it belongs.
    have hworld : n.world.1 = { m.world.1.enter (.showError e) false with
        errors := m.world.1.errors ++ [e] } := by
      rw [hw, hs.depth_of_pumping hs']
      rfl
    rw [hworld, hn, hq, hnone, enter_of_violation?_none rfl]
    exact ⟨by simp [toldOf], rfl⟩

theorem told_of_invokes {is : List Invocation} (hr : Invokes o s m is n) (hs : m.Sound)
    (ha : m.All Action.IsIndirect) :
    told n = told m ++ toldOf is ∧ n.world.1.violations = m.world.1.violations := by
  induction hr with
  | refl => exact ⟨(List.append_nil _).symm, rfl⟩
  | step hm _ ih =>
    obtain ⟨htold, hviolations⟩ := told_next hm hs ha
    obtain ⟨htold', hviolations'⟩ := ih ((Schedule.Machine.move_of_next? hm).sound hs) (ha.next hm)
    refine ⟨?_, hviolations'.trans hviolations⟩
    rw [htold', htold, toldOf_append, List.append_assoc]

/-- **Every invocation whose template made no class is told of, once and in order**: the errors that
were shown, with those that wait in the queue, are those of these invocations. No call is made where
it does not belong. -/
theorem rejections_noticed {w : World} {prog : Schedule.Program Action} {is : List Invocation}
    (hp : Schedule.Program.All Action.IsIndirect prog)
    (hr : Invokes o s (Schedule.Machine.load w [] prog) is n) :
    n.world.1.errors ++ Schedule.notices n.queue =
        w.1.errors ++ (is.filterMap Invocation.rejection?).map Rejection.notice ∧
      n.world.1.violations = w.1.violations := by
  have h := told_of_invokes hr (Schedule.Machine.sound_load w [] prog) (Schedule.Machine.all_load hp)
  unfold told at h
  rwa [show Schedule.notices (Schedule.Machine.load w [] prog : Machine).queue = [] from rfl,
    List.append_nil] at h

/-- A template without a class, and a refused one in a job that panics; the pump within the write
action runs neither the job nor a notice. -/
theorem rejections_noticed_of_panic :
    let fix : CreateClass := ⟨⟨"Foo", .plain, ⟨0⟩⟩, true⟩
    let prog : Schedule.Program Action := [
      .act (.addDirectory "a" true), .act (.addFile ⟨0⟩ "B.groovy" .source "class B \x7b\x7d"),
      .act (.setDialog (.confirm (some ⟨0⟩) none none)),
      .act (.setTemplate "GroovyClass.groovy" "// no class"),
      .act (.offer fix ⟨0⟩ false),
      .later [.act (.failNext .creation (.incorrectOperation "no")), .act (.offer fix ⟨0⟩ false),
        .panic .other],
      .write [.act (.offer fix ⟨0⟩ false), .pump], .pump]
    ∃ n is, (Schedule.Program.All Action.IsIndirect prog ∧
        Invokes Override.none .default (Schedule.Machine.load (Project.empty, 0) [] prog) is n ∧
        n.world.1.errors.map ErrorNotice.message =
          ([ "Cannot create class 'Foo': No class found in file template",
            "Cannot create class 'Foo': no"] : List Text)) ∧
      n.world.1.errors ++ Schedule.notices n.queue =
          Project.empty.errors ++ (is.filterMap Invocation.rejection?).map Rejection.notice ∧
        n.world.1.violations = Project.empty.violations := by
  intro fix prog
  let start : Machine := Schedule.Machine.load (Project.empty, 0) [] prog
  let M := meaning (Override.none.before host) .default
  obtain ⟨h, hruns⟩ := Schedule.Machine.exists_runs_advance M 30 start
  obtain ⟨is, his⟩ := exists_invokes hruns
  have hp : Schedule.Program.All Action.IsIndirect prog := by
    simp [prog, Schedule.Program.All, Schedule.Step.All, Schedule.Step.write, Action.IsIndirect]
  exact ⟨start.advance M 30, is, ⟨hp, his, by decide +kernel⟩, rejections_noticed hp his⟩

end

end Project

end QuickFix
