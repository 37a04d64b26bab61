import QuickFix.Proofs.Project.Files

/-!
# Invocations that create nothing

What an invocation leaves of a project when it does not create a class. An invocation that was not
applicable leaves all as it was, one that was cancelled showed the dialog, and one that failed may
leave one new file behind, in the directory that was chosen (`Spared`). The calls of a failed
invocation after the dialog go to the new file only (`Begun`), whatever they are answered with.
-/

namespace QuickFix

open QuickFix.Fix

namespace Project

/-- The directory that the dialog is confirmed with, if it is. -/
def DialogScript.directory? : DialogScript → Option DirectoryId
  | .cancel => none
  | .confirm directory? _ _ => directory?

/-! ## What is left -/

/-- What a failed invocation leaves of the project `p`, and the jobs that it puts off. -/
structure Failed (p q : Project) (jobs : List (Schedule.Job Action ErrorNotice)) : Prop where
  /-- The files of before are there with their texts, and one new file at most, in the directory that
  was chosen in the dialog. -/
  files : ∃ new, q.files = p.files ++ new ∧ new.length ≤ 1 ∧
    ∀ f ∈ new, p.script.directory? = some f.directory
  imports : q.imports = p.imports
  opens : q.opens = p.opens
  /-- But for that, only what is noted about calls changes, and what waits for calls to come. -/
  rest : q = { p with
    files := q.files
    failCreation? := q.failCreation?
    overwrite? := q.overwrite?
    calls := q.calls
    dialogs := q.dialogs }
  jobs : jobs = [] ∨ ∃ name cause,
    jobs = [.notice ⟨cannotCreateText name cause, Message.cannotCreateTitle.pattern⟩]

/-- What an invocation with this outcome leaves of the world `w`, and the jobs that it puts off. -/
def Spared (w : World) (r : Outcome) (w' : World)
    (jobs : List (Schedule.Job Action ErrorNotice)) : Prop :=
  match r with
  | .notApplicable => w' = w ∧ jobs = []
  | .cancelled => w'.1 = { w.1 with calls := w'.1.calls, dialogs := w'.1.dialogs } ∧ jobs = []
  | .failed => Failed w.1 w'.1 jobs
  | .created _ _ => True

/-! ## Calls in their place -/

section

variable {p q : Project} {c : Call} {b : Bool}

theorem enter_of_violation?_none (h : violation? c b = none) :
    p.enter c b = { p with calls := p.calls + 1 } := by
  unfold enter
  rw [h, Option.toList_none, List.append_nil]

/-- A dialog that is confirmed: what the script leaves open is as the dialog was opened. -/
theorem askUser_eq_some {r : DialogRequest} {request : CreationRequest}
    (h : (p.askUser r).1 = some request) :
    ∃ directory? className? addConstructor?,
      p.script = .confirm directory? className? addConstructor? ∧ request = {
        directory? := directory?
        package := ((directory?.bind p.directory?).map Directory.package).getD r.package
        className := className?.getD r.className
        module? := ((directory?.bind p.directory?).bind Directory.module?).or r.module?
        addConstructor := addConstructor?.getD r.addConstructor } := by
  unfold askUser at h
  cases hs : p.script with
  | cancel =>
    rw [hs] at h
    cases h
  | confirm directory? className? addConstructor? =>
    rw [hs] at h
    exact ⟨_, _, _, rfl, (Option.some.inj h).symm⟩

end

/-! ## With the new file -/

/-- The project `q` is `p` with some files more, after some calls in a write action. -/
def Grown (p : Project) (new : List File) (q : Project) : Prop :=
  ∃ calls overwrite?, q = { p with
    files := p.files ++ new
    failCreation? := none
    overwrite? := overwrite?
    calls := calls }

/-- The project `q` is `p` with a new file in the directory `d`, after calls in a write action. -/
def Begun (p : Project) (d : DirectoryId) (q : Project) : Prop :=
  ∃ g : File, g.directory = d ∧ Grown p [g] q

/-- The call is one of a write action and changes no other file than `id`. -/
def Confined (id : FileId) (o : Observation) : Prop :=
  o.isWriting = true ∧
    match o.call with
    | .classesOf _ => True
    | .isAccessible _ _ => True
    | .setVisibility c _ => c.file = id
    | .addConstructor c => c.file = id
    | _ => False

section

variable {p q : Project} {d : DirectoryId} {o : Override}

theorem Begun.enter (h : Begun p d q) {c : Call} (hc : violation? c true = none) :
    Begun p d (q.enter c true) := by
  obtain ⟨g, hg, calls, overwrite?, rfl⟩ := h
  rw [enter_of_violation?_none hc]
  exact ⟨g, hg, calls + 1, overwrite?, rfl⟩

theorem Begun.editClass (h : Begun p d q) {c : ClassInfo} (hc : c.file = ⟨p.files.length⟩)
    (edit : Declaration → Text → Except StaleDeclaration (Option Edit)) :
    Begun p d (q.editClass c edit).2 := by
  obtain ⟨g, hg, calls, overwrite?, rfl⟩ := h
  obtain ⟨fs, hq, hfs⟩ := exists_editClass { p with
    files := p.files ++ [g]
    failCreation? := none
    overwrite? := overwrite?
    calls := calls } c edit
  rw [hq]
  rcases hfs with rfl | ⟨t, rfl⟩
  · exact ⟨g, hg, calls, none, rfl⟩
  · refine ⟨{ g with text := t }, hg, calls, none, ?_⟩
    rw [hc]
    congr 1
    exact List.modifyTailIdx_add _ 0 p.files [g]

theorem Begun.call (h : Begun p d q) {c : Call} {b : Bool} {reply : c.Reply}
    (hc : Confined ⟨p.files.length⟩ ⟨c, b, reply⟩) : Begun p d (host c b q).world := by
  obtain ⟨hb, hc⟩ := hc
  obtain rfl : b = true := hb
  cases c with
  | classesOf id => exact h.enter rfl
  | isAccessible c origin => exact h.enter rfl
  | setVisibility c v => exact Begun.editClass (h.enter rfl) hc fun d => d.visibilityEdit v
  | addConstructor c => exact Begun.editClass (h.enter rfl) hc Declaration.constructorEdit
  | _ => exact hc.elim

theorem Begun.replays {w w' : World} {tr : List Observation} (h : Begun p d w.1)
    (hr : Replays (o.before host) w tr w') (htr : ∀ o ∈ tr, Confined ⟨p.files.length⟩ o) :
    Begun p d w'.1 :=
  keeps_of_replays hr htr (fun _ _ _ _ hc hq => hq.call hc) h

theorem file_of_mem_classesOf {id : FileId} {cs : List ClassInfo} (h : p.classesOf id = .ok cs) :
    ∀ c ∈ cs, c.file = id := by
  unfold classesOf at h
  split at h
  · cases h
  · split at h
    · cases h
      intro c hc
      obtain ⟨d, -, rfl⟩ := List.mem_map.1 hc
      rfl
    · cases h
      exact List.forall_mem_nil _

/-- The classes of a file are told with that file, behind an override too. -/
theorem file_of_reply {id : FileId} {b : Bool} {w : World} {c : ClassInfo} {cs : List ClassInfo}
    (h : (o.before host (.classesOf id) b w).reply = .ok (c :: cs)) : c.file = id := by
  simp only [Override.before, Override.classesOf] at h
  split at h
  · cases h
  · have h : ((w.1.enter (.classesOf id) b).classesOf id).map (fun cs => cs.map o.hide) =
        .ok (c :: cs) := h
    cases hr : (w.1.enter (.classesOf id) b).classesOf id with
    | error e =>
      rw [hr] at h
      cases h
    | ok cs' =>
      rw [hr] at h
      have hcs : cs'.map o.hide = c :: cs := Except.ok.inj h
      have hc : c ∈ cs'.map o.hide := hcs ▸ List.mem_cons_self
      obtain ⟨c', hc', rfl⟩ := List.mem_map.1 hc
      exact file_of_mem_classesOf hr c' hc'

/-- The calls for the class of the new file stay with that file, up to the first that fails. -/
theorem confined_of_editing {policy : VisibilityPolicy} {root : Root} {isWanted : Bool}
    {id : FileId} {c : ClassInfo} {f : Failure} {tr : List Observation} (hc : c.file = id)
    (h : Editing policy root isWanted id c (.error f) tr) {ob : Observation} (hob : ob ∈ tr)
    (hw : ob.isWriting = true) : Confined id ob := by
  rcases h.editCall hob with hcall | ⟨_, _, -, hr⟩
  · obtain ⟨call, b, reply⟩ := ob
    refine ⟨hw, ?_⟩
    cases hcall with
    | asked | reread => exact True.intro
    | opened | constructed => exact hc
  · cases hr

theorem grown_of_createFile {nf : NewFile} {w : World} {r : Except HostError FileId}
    (hr : r = (o.before host (.createFile d nf) true w).reply) :
    ∃ new, Makes w.1.files d nf r new ∧
      Grown w.1 new (o.before host (.createFile d nf) true w).world.1 := by
  let p := w.1.enter (.createFile d nf) true
  obtain ⟨new, hq, hnew⟩ := exists_createFile p d nf
  have hp : p = { w.1 with calls := w.1.calls + 1 } := enter_of_violation?_none rfl
  refine ⟨new, hr ▸ hnew, ?_⟩
  show Grown w.1 new (p.createFile d nf).2.1
  rw [hq, hp]
  exact ⟨w.1.calls + 1, w.1.overwrite?, rfl⟩

/-- Where the file was made, the other calls stay with it. -/
theorem begun_of_made {nf : NewFile} {file : FileId} {tr : List Observation} {w w' : World}
    (hr : Replays (o.before host) w (⟨.createFile d nf, true, .ok file⟩ :: tr) w')
    (htr : ∀ ob ∈ tr, Confined file ob) : Begun w.1 d w'.1 := by
  obtain ⟨hreply, hr⟩ := replays_cons_iff.1 hr
  obtain ⟨new, hnew, hgrown⟩ := grown_of_createFile (r := .ok file) hreply
  cases hnew with
  | made hdirectory => exact Begun.replays ⟨_, hdirectory, hgrown⟩ hr htr

/-- A write action that fails leaves the project as it was but for one new file at most. -/
theorem grown_of_creation {policy : VisibilityPolicy} {root : Root} {request : CreationRequest}
    {nf : NewFile} {f : Failure} {tr : List Observation} {w w' : World}
    (h : Creation policy root request d nf (.error f) tr) (hflag : ∀ o ∈ tr, o.isWriting = true)
    (hr : Replays (o.before host) w tr w') :
    ∃ new, new.length ≤ 1 ∧ (∀ g ∈ new, g.directory = d) ∧ Grown w.1 new w'.1 := by
  have begun (h : Begun w.1 d w'.1) :
      ∃ new, new.length ≤ 1 ∧ (∀ g ∈ new, g.directory = d) ∧ Grown w.1 new w'.1 := by
    obtain ⟨g, hg, hw'⟩ := h
    exact ⟨[g], Nat.le_refl 1, List.forall_mem_singleton.2 hg, hw'⟩
  cases h with
  | unmade e =>
    obtain ⟨hreply, hr⟩ := replays_cons_iff.1 hr
    obtain ⟨new, hnew, hgrown⟩ := grown_of_createFile (r := .error e) hreply
    cases hnew with
    | refused =>
      rw [replays_nil_iff.1 hr]
      exact ⟨[], Nat.zero_le 1, List.forall_mem_nil _, hgrown⟩
  | unread file e => exact begun (begun_of_made hr (List.forall_mem_singleton.2 ⟨rfl, trivial⟩))
  | classless file => exact begun (begun_of_made hr (List.forall_mem_singleton.2 ⟨rfl, trivial⟩))
  | edited file c cs htr =>
    obtain ⟨hread, -⟩ := replays_cons_iff.1 (replays_cons_iff.1 hr).2
    -- The class was told by the new file, so the edits of the class name that file.
    have hfile : c.file = file := file_of_reply hread.symm
    refine begun (begun_of_made hr (List.forall_mem_cons.2 ⟨⟨rfl, trivial⟩, fun ob hob => ?_⟩))
    refine confined_of_editing hfile htr hob ?_
    exact hflag ob (List.mem_cons_of_mem _ (List.mem_cons_of_mem _ hob))

/-! ## With the dialog -/

theorem exists_of_asked {id : FileId} {r : DialogRequest} {module? : Option ModuleId}
    {answer? : Option CreationRequest} {tr : List Observation} {w w' : World}
    (hr : Replays (o.before host) w
      (⟨.moduleOf id, false, module?⟩ :: ⟨.askUser r, false, answer?⟩ :: tr) w') :
    ∃ w₁ : World, w₁.1 = { w.1 with calls := w.1.calls + 2, dialogs := w.1.dialogs ++ [r] } ∧
      Replays (o.before host) w₁ tr w' ∧
      ∀ request, answer? = some request → w.1.script.directory? = request.directory? := by
  obtain ⟨-, hr⟩ := replays_cons_iff.1 hr
  obtain ⟨hanswer, hr⟩ := replays_cons_iff.1 hr
  refine ⟨_, ?_, hr, fun request hrequest => ?_⟩
  · have hmodule : w.1.enter (.moduleOf id) false = { w.1 with calls := w.1.calls + 1 } :=
      enter_of_violation?_none rfl
    show (((w.1.enter (.moduleOf id) false).enter (.askUser r) false).askUser r).2 = _
    rw [hmodule, enter_of_violation?_none rfl]
    rfl
  · have hanswer :
        answer? = (((w.1.enter (.moduleOf id) false).enter (.askUser r) false).askUser r).1 := hanswer
    obtain ⟨directory?, _, _, hs, rfl⟩ := askUser_eq_some (hanswer.symm.trans hrequest)
    exact congrArg DialogScript.directory? hs

theorem failed_of_grown {new : List File} {r : DialogRequest} {q : Project} {f : Failure}
    (hlength : new.length ≤ 1) (hnew : ∀ g ∈ new, p.script.directory? = some g.directory)
    (hq : Grown { p with calls := p.calls + 2, dialogs := p.dialogs ++ [r] } new q) :
    Failed p q (f.notice?.map Schedule.Job.notice).toList := by
  obtain ⟨calls, overwrite?, rfl⟩ := hq
  refine ⟨⟨new, rfl, hlength, hnew⟩, rfl, rfl, rfl, ?_⟩
  cases f with
  | cancelled => exact .inl rfl
  | host e => exact .inl rfl
  | noClass name cause => exact .inr ⟨name, cause, rfl⟩

theorem spared_of_course {fix : CreateClass} {s : CreateSettings} {place : Snapshot} {b : Bool}
    {r : Outcome} {tr : List Observation} {notice? : Option ErrorNotice} {ws : List Log.Event}
    {w w' : World} (hc : Course fix s place b r tr notice? ws)
    (hr : Replays (o.before host) w tr w') :
    Spared w r w' (notice?.map Schedule.Job.notice).toList := by
  cases hc with
  | notApplicable => exact ⟨replays_nil_iff.1 hr, rfl⟩
  | asked hroot hw module? answer? h =>
    obtain ⟨w₁, hw₁, hrest, hanswer⟩ := exists_of_asked hr
    cases h with
    | refused | undirected _ | unnamed _ _ =>
      obtain rfl : w' = w₁ := replays_nil_iff.1 hrest
      exact ⟨by rw [hw₁], rfl⟩
    | created => exact True.intro
    | @failed request directory hd hname f tr hflag htr =>
      obtain ⟨new, hlength, hnew, hgrown⟩ := grown_of_creation htr hflag hrest
      rw [hw₁] at hgrown
      refine failed_of_grown hlength (fun g hg => ?_) hgrown
      rw [hanswer request rfl, hd, hnew g hg]

/-- **An invocation that creates nothing leaves the project as it was**, but for the dialog that was
shown and, if it failed, for one new file in the directory that was chosen there. -/
theorem invoke_spares (o : Override) (fix : CreateClass) (s : CreateSettings) (place : Snapshot)
    (w : World) (depth : Nat) :
    let run := fix.invoke (o.before host) s place ⟨w, depth, none, []⟩
    Spared w run.1 run.2.world (run.2.notice?.map Schedule.Job.notice).toList := by
  intro run
  obtain ⟨hr, ws, hc⟩ := exists_replayed (o.before host) fix s place w depth
  exact spared_of_course hc hr

/-- The class is made and cannot be opened up: its file stays. -/
example :
    let here : Directory := ⟨⟨"a"⟩, none, some mainModule⟩
    let f : File := here.file ⟨0⟩ "Main.groovy" .source "package a\nclass Main \x7b\x7d\n"
    let p : Project := { empty with
      files := [f]
      directories := [here, { here with package := ⟨"b"⟩ }]
      script := .confirm (some ⟨1⟩) none none }
    let o : Override := { Override.none with failVisibility? := some (.io "read only") }
    let fix : CreateClass := ⟨⟨"Foo", .plain, ⟨0⟩⟩, true⟩
    let run := fix.invoke (o.before host) .default (f.snapshot ⟨0⟩) ⟨(p, 0), 0, none, []⟩
    run.1 = .failed ∧ run.2.world.1.files.map File.directory = [⟨0⟩, ⟨1⟩] := by
  decide +kernel

end

end Project

end QuickFix
