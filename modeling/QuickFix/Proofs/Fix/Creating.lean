import QuickFix.Proofs.Fix.Observing

/-!
# The calls of a write action

The calls of a write action depend on the answers to the calls before. Each step makes the calls that
are fixed by what came before it, and breaks off behind the first that is answered with an error
(`Attempted`). From the steps come the ways in which the write action goes (`Creation`):
`create_traced` says that there are no others, whatever the host answers.
-/

namespace QuickFix.Fix

/-! ## Calls up to the first error -/

/-- The calls `cs` were made, and none was answered with an error. -/
def Passes (cs : List Call) (tr : List Observation) : Prop :=
  tr.map Observation.call = cs ∧ ∀ o ∈ tr, o.error? = none

/-- The first of the calls `cs` were made, up to one that was answered with the error `e`. -/
def Stops (cs : List Call) (e : HostError) (tr : List Observation) : Prop :=
  tr.map Observation.call <+: cs ∧
    ∃ tr' o, tr = tr' ++ [o] ∧ (∀ o' ∈ tr', o'.error? = none) ∧ o.error? = some e

/-- The calls `cs` were made, and `r` failed with the error that cut them short, if one did. -/
def Attempted {α : Type} (cs : List Call) (r : Except Failure α) (tr : List Observation) : Prop :=
  match r with
  | .ok _ => Passes cs tr
  | .error f => ∃ e, f = .host e ∧ Stops cs e tr

theorem Passes.append {cs cs' : List Call} {tr tr' : List Observation} (h : Passes cs tr)
    (h' : Passes cs' tr') : Passes (cs ++ cs') (tr ++ tr') := by
  refine ⟨?_, List.forall_mem_append.2 ⟨h.2, h'.2⟩⟩
  rw [List.map_append, h.1, h'.1]

theorem Stops.append {cs : List Call} {e : HostError} {tr : List Observation} (h : Stops cs e tr)
    (cs' : List Call) : Stops (cs ++ cs') e tr :=
  ⟨h.1.trans (List.prefix_append cs cs'), h.2⟩

theorem Passes.stops {cs cs' : List Call} {e : HostError} {tr tr' : List Observation}
    (h : Passes cs tr) (h' : Stops cs' e tr') : Stops (cs ++ cs') e (tr ++ tr') := by
  obtain ⟨hcalls, tr₁, o, rfl, hnone, he⟩ := h'
  refine ⟨?_, tr ++ tr₁, o, (List.append_assoc _ _ _).symm, ?_, he⟩
  · rw [List.map_append, h.1]
    exact (List.prefix_append_right_inj cs).2 hcalls
  · exact List.forall_mem_append.2 ⟨h.2, hnone⟩

theorem passes_nil : Passes [] [] := ⟨rfl, fun o ho => (by cases ho)⟩

theorem passes_one {c : Call} {b : Bool} {reply : c.Reply} (h : c.error? reply = none) :
    Passes [c] [⟨c, b, reply⟩] := by
  refine ⟨rfl, fun o ho => ?_⟩
  rw [List.mem_singleton.1 ho]
  exact h

theorem stops_one {c : Call} {b : Bool} {reply : c.Reply} {e : HostError}
    (h : c.error? reply = some e) : Stops [c] e [⟨c, b, reply⟩] :=
  ⟨List.prefix_refl [c], [], ⟨c, b, reply⟩, rfl, fun o ho => (by cases ho), h⟩

variable {σ : Type} {H : Host σ}

/-! ## Making the file -/

/-- Why no class was made, if the file could not be made because of `e`. -/
def makingFailure (name : Text) : HostError → Failure
  | .incorrectOperation cause => .noClass name cause
  | e => .host e

theorem makeFile_traced (directory : DirectoryId) (f : NewFile) :
    Traced true (makeFile H directory f).run (makeFile H.observed directory f).run fun r tr =>
      ∃ reply, tr = [⟨.createFile directory f, true, reply⟩] ∧
        r = Except.mapError (makingFailure f.className) reply := by
  refine Traced.bind Traced.call fun reply tr htr => ?_
  subst htr
  cases reply with
  | ok file => exact Traced.pure ⟨.ok file, rfl, rfl⟩
  | error e =>
    cases e with
    | incorrectOperation cause => exact Traced.pure ⟨.error (.incorrectOperation cause), rfl, rfl⟩
    | _ => exact Traced.pure ⟨.error _, rfl, rfl⟩

/-- What reading the new file `file` for its first class comes to. -/
inductive Finding (name : Text) (file : FileId) :
    Except Failure ClassInfo → List Observation → Prop
  | found (c : ClassInfo) (cs : List ClassInfo) :
    Finding name file (.ok c) [⟨.classesOf file, true, .ok (c :: cs)⟩]
  | classless : Finding name file (.error (.noClass name Message.noClass.pattern))
    [⟨.classesOf file, true, .ok []⟩]
  | unread (e : HostError) : Finding name file (.error (.host e))
    [⟨.classesOf file, true, .error e⟩]

theorem firstClass_traced (name : Text) (file : FileId) :
    Traced true (firstClass H name file).run (firstClass H.observed name file).run
      (Finding name file) := by
  refine Traced.bindRun (Traced.attempt Traced.call) ?_ ?_
  · rintro cs _ ⟨reply, hr, rfl⟩
    cases reply with
    | error e => cases hr
    | ok classes =>
      cases hr
      cases cs with
      | nil => exact Traced.pure .classless
      | cons c cs => exact Traced.pure (.found c cs)
  · rintro f _ ⟨reply, hr, rfl⟩
    cases reply with
    | ok classes => cases hr
    | error e =>
      cases hr
      exact .unread e

/-! ## Opening up a class -/

/-- The answer to whether the class `c`, at the level `v?`, can be used in the file `origin`. -/
def query (c : ClassInfo) (origin : FileId) (v? : Option Visibility) (answer : Bool) : Observation :=
  ⟨.isAccessible { c with visibility? := v? } origin, true, answer⟩

/-- How a level is chosen for the class `c` of the level `u`, which cannot be used in the file
`origin`: the widest, or the first wider one at which it can be used, or the widest because there is none. -/
inductive Choosing (policy : VisibilityPolicy) (c : ClassInfo) (origin : FileId) (u : Visibility) :
    Visibility → List Observation → Prop
  | widest (hp : policy = .widest) : Choosing policy c origin u .pub []
  | minimal (hp : policy = .minimal) {vs vs' : List Visibility} {v : Visibility}
    (hvs : u.wider = vs ++ v :: vs') :
    Choosing policy c origin u v
      (vs.map (fun w => query c origin (some w) false) ++ [query c origin (some v) true])
  | unusable (hp : policy = .minimal) :
    Choosing policy c origin u .pub (u.wider.map fun w => query c origin (some w) false)

/-- How it is found out which level the class `c` must be given for the file `origin`, if any: `fixed`
if it has none or the widest, `accessible` if it can be used there, and `raised` to a wider level
otherwise. -/
inductive Opening (policy : VisibilityPolicy) (c : ClassInfo) (origin : FileId) :
    Option Visibility → List Observation → Prop
  | fixed (h : c.visibility? = none ∨ c.visibility? = some .pub) : Opening policy c origin none []
  | accessible {u : Visibility} (hu : c.visibility? = some u) (hne : u ≠ .pub) :
    Opening policy c origin none [query c origin (some u) true]
  | raised {u v : Visibility} (hu : c.visibility? = some u) (hlt : u.rank < v.rank)
    {tr : List Observation} (htr : Choosing policy c origin u v tr) :
    Opening policy c origin (some v) (query c origin (some u) false :: tr)

/-- Only one question is asked about a level, again and again. -/
theorem Opening.exists_query {policy : VisibilityPolicy} {c : ClassInfo} {origin : FileId}
    {level? : Option Visibility} {asked : List Observation}
    (h : Opening policy c origin level? asked) :
    ∀ o ∈ asked, ∃ v? answer, o = query c origin v? answer := by
  have many (vs : List Visibility) : ∀ o ∈ vs.map (fun w => query c origin (some w) false),
      ∃ v? answer, o = query c origin v? answer := by
    intro o ho
    obtain ⟨w, -, rfl⟩ := List.mem_map.1 ho
    exact ⟨_, _, rfl⟩
  cases h with
  | fixed => exact List.forall_mem_nil _
  | accessible => exact List.forall_mem_singleton.2 ⟨_, _, rfl⟩
  | raised _ _ htr =>
    refine List.forall_mem_cons.2 ⟨⟨_, _, rfl⟩, ?_⟩
    cases htr with
    | widest => exact List.forall_mem_nil _
    | minimal =>
      exact List.forall_mem_append.2 ⟨many _, List.forall_mem_singleton.2 ⟨_, _, rfl⟩⟩
    | unusable => exact many _

theorem firstAccessible?_traced (c : ClassInfo) (origin : FileId) (vs : List Visibility) :
    Traced true (firstAccessible? H c origin vs) (firstAccessible? H.observed c origin vs)
      fun r tr => match r with
        | none => tr = vs.map fun w => query c origin (some w) false
        | some v => ∃ ws ws', vs = ws ++ v :: ws' ∧ tr =
            ws.map (fun w => query c origin (some w) false) ++ [query c origin (some v) true] := by
  induction vs with
  | nil => exact Traced.pure rfl
  | cons v vs ih =>
    refine Traced.bind Traced.call fun answer tr htr => ?_
    subst htr
    cases answer with
    | true => exact Traced.pure ⟨[], vs, rfl, rfl⟩
    | false =>
      refine Traced.mono ih fun r tr hr => ?_
      cases r with
      | none =>
        subst hr
        rfl
      | some w =>
        obtain ⟨ws, ws', rfl, rfl⟩ := hr
        exact ⟨v :: ws, ws', rfl, rfl⟩

theorem rank_lt_of_mem_wider {u v : Visibility} (h : v ∈ u.wider) : u.rank < v.rank :=
  of_decide_eq_true (List.mem_filter.1 h).2

theorem rank_lt_pub {u : Visibility} (h : u ≠ .pub) : u.rank < Visibility.pub.rank := by
  cases u with
  | pub => exact absurd rfl h
  | _ => decide

theorem requiredVisibility?_eq {policy : VisibilityPolicy} {c : ClassInfo} {origin : FileId}
    {u : Visibility} (hu : c.visibility? = some u) (hne : u ≠ .pub) :
    requiredVisibility? H policy c origin = do
      if ← Session.call H (.isAccessible c origin) then return none
      else match policy with
        | .widest => return some .pub
        | .minimal => return some ((← firstAccessible? H c origin u.wider).getD .pub) := by
  unfold requiredVisibility?
  rw [hu]
  cases u with
  | pub => exact absurd rfl hne
  | _ => rfl

theorem requiredVisibility?_of_fixed {policy : VisibilityPolicy} {c : ClassInfo} {origin : FileId}
    (h : c.visibility? = none ∨ c.visibility? = some .pub) :
    requiredVisibility? H policy c origin = pure none := by
  unfold requiredVisibility?
  rcases h with h | h
  · rw [h]
  · rw [h]

theorem requiredVisibility?_traced (policy : VisibilityPolicy) (c : ClassInfo) (origin : FileId) :
    Traced true (requiredVisibility? H policy c origin)
      (requiredVisibility? H.observed policy c origin) (Opening policy c origin) := by
  by_cases hc : c.visibility? = none ∨ c.visibility? = some .pub
  · rw [requiredVisibility?_of_fixed hc, requiredVisibility?_of_fixed hc]
    exact Traced.pure (.fixed hc)
  · rw [not_or] at hc
    obtain ⟨u, hu⟩ := Option.ne_none_iff_exists'.1 hc.1
    have hne : u ≠ .pub := fun h => hc.2 (h ▸ hu)
    have hself : ∀ answer,
        query c origin (some u) answer = ⟨.isAccessible c origin, true, answer⟩ := by
      intro answer
      rw [query, ← hu]
    rw [requiredVisibility?_eq hu hne, requiredVisibility?_eq hu hne]
    refine Traced.bind Traced.call fun answer tr htr => ?_
    rw [← hself] at htr
    subst htr
    cases answer with
    | true => exact Traced.pure (.accessible hu hne)
    | false =>
      cases policy with
      | widest => exact Traced.pure (.raised hu (rank_lt_pub hne) (.widest rfl))
      | minimal =>
        refine Traced.bind (firstAccessible?_traced c origin u.wider) fun v? tr hr => ?_
        refine Traced.pure ?_
        rw [List.append_nil]
        cases v? with
        | none =>
          subst hr
          exact .raised hu (rank_lt_pub hne) (.unusable rfl)
        | some v =>
          obtain ⟨vs, vs', hvs, rfl⟩ := hr
          have hv : v ∈ u.wider := hvs ▸ List.mem_append_cons_self
          exact .raised hu (rank_lt_of_mem_wider hv) (.minimal rfl hvs)

/-! ## Changing a class -/

theorem attempted_one {α : Type} {c : Call} {b : Bool} {reply : c.Reply} {r : Except HostError α}
    (hok : ∀ a, r = .ok a → c.error? reply = none)
    (herr : ∀ e, r = .error e → c.error? reply = some e) :
    Attempted [c] (r.mapError .host) [⟨c, b, reply⟩] := by
  cases r with
  | ok a => exact passes_one (hok a rfl)
  | error e => exact ⟨e, rfl, stops_one (herr e rfl)⟩

theorem setVisibility_traced (c : ClassInfo) (v : Visibility) :
    Traced true (attempt (Session.call H (.setVisibility c v))).run
      (attempt (Session.call H.observed (.setVisibility c v))).run
      (Attempted [.setVisibility c v]) := by
  refine Traced.mono (Traced.attempt Traced.call) ?_
  rintro _ _ ⟨reply, rfl, rfl⟩
  exact attempted_one (fun u h => by rw [h]; rfl) fun e h => by rw [h]; rfl

theorem addConstructor_traced (c : ClassInfo) :
    Traced true (attempt (Session.call H (.addConstructor c))).run
      (attempt (Session.call H.observed (.addConstructor c))).run
      (Attempted [.addConstructor c]) := by
  refine Traced.mono (Traced.attempt Traced.call) ?_
  rintro _ _ ⟨reply, rfl, rfl⟩
  exact attempted_one (fun u h => by rw [h]; rfl) fun e h => by rw [h]; rfl

/-- The call that gives the class `c` a level, if it must be given one. -/
def levelCalls (c : ClassInfo) (level? : Option Visibility) : List Call :=
  level?.toList.map (Call.setVisibility c)

/-- The call that adds a constructor, if one is wanted and the class can have one. -/
def constructorCalls (isWanted : Bool) (c : ClassInfo) : List Call :=
  if isWanted && c.kind = .plain then [.addConstructor c] else []

theorem widen_traced (policy : VisibilityPolicy) (c : ClassInfo) (origin : FileId) :
    Traced true (widen H policy c origin).run (widen H.observed policy c origin).run fun r tr =>
      ∃ level? asked tr', tr = asked ++ tr' ∧ Opening policy c origin level? asked ∧
        Attempted (levelCalls c level?) r tr' ∧ ∀ a, r = .ok a → a = level? := by
  unfold widen
  refine Traced.bindLift (requiredVisibility?_traced policy c origin) fun level? asked hopen => ?_
  cases level? with
  | none =>
    exact Traced.pure ⟨none, asked, [], rfl, hopen, passes_nil, fun a ha => (by cases ha; rfl)⟩
  | some v =>
    refine Traced.bindRun (setVisibility_traced c v) (fun _ tr hset => ?_) fun f tr hset => ?_
    · refine Traced.pure ⟨some v, asked, tr, ?_, hopen, hset, fun a ha => (by cases ha; rfl)⟩
      rw [List.append_nil]
    · exact ⟨some v, asked, tr, rfl, hopen, hset, fun a ha => (by cases ha)⟩

theorem giveConstructor_traced (isWanted : Bool) (c : ClassInfo) :
    Traced true (giveConstructor H isWanted c).run (giveConstructor H.observed isWanted c).run
      fun r tr => Attempted (constructorCalls isWanted c) r tr ∧
        ∀ isAdded, r = .ok isAdded → isAdded = (isWanted && c.kind = .plain) := by
  unfold giveConstructor constructorCalls
  by_cases hc : (isWanted && c.kind = .plain) = true
  · rw [if_pos hc, if_pos hc, if_pos hc]
    refine Traced.bindRun (addConstructor_traced c) (fun _ tr hadd => ?_) fun f tr hadd => ?_
    · refine Traced.pure ⟨?_, fun isAdded h => (by cases h; exact hc.symm)⟩
      rw [List.append_nil]
      exact hadd
    · exact ⟨hadd, fun isAdded h => (by cases h)⟩
  · rw [if_neg hc, if_neg hc, if_neg hc]
    refine Traced.pure ⟨passes_nil, fun isAdded h => ?_⟩
    cases h
    exact (Bool.eq_false_iff.2 hc).symm

/-- The class as its file, with the classes `ds`, has it. -/
def ClassInfo.among (c : ClassInfo) (ds : List ClassInfo) : ClassInfo :=
  (ds.find? fun d => d.name = c.name).getD c

theorem reread_traced (c : ClassInfo) (file : FileId) :
    Traced true (reread H c file).run (reread H.observed c file).run fun r tr =>
      ∃ reply, tr = [⟨.classesOf file, true, reply⟩] ∧
        r = (reply.mapError .host).map c.among := by
  unfold reread
  refine Traced.bindRun (Traced.attempt Traced.call) ?_ ?_
  · rintro ds _ ⟨reply, hr, rfl⟩
    cases reply with
    | error e => cases hr
    | ok ds =>
      cases hr
      cases hd : ds.find? fun d => d.name = c.name with
      | some d =>
        refine Traced.pure ⟨.ok ds, rfl, ?_⟩
        show _ = Except.ok (c.among ds)
        rw [ClassInfo.among, hd]
        rfl
      | none =>
        refine Traced.bindLogged rfl (Traced.pure ⟨.ok ds, rfl, ?_⟩)
        show _ = Except.ok (c.among ds)
        rw [ClassInfo.among, hd]
        rfl
  · rintro f _ ⟨reply, hr, rfl⟩
    cases reply with
    | ok ds => cases hr
    | error e =>
      cases hr
      exact ⟨.error e, rfl, rfl⟩

/-! ## Importing a class -/

/-- How the class `c` is imported into the code at `root`: not at all if that is needless, and else
by one call, which may fail. -/
inductive Importing (root : Root) (c : ClassInfo) : Option QualifiedName → List Observation → Prop
  | needless (h : ∀ q, c.qualified? = some q → needsImport q root.package = false) :
    Importing root c none []
  | imported {q : QualifiedName} (hq : c.qualified? = some q)
    (h : needsImport q root.package = true) :
    Importing root c (some q) [⟨.addImport root.file q, true, .ok ()⟩]
  | lost {q : QualifiedName} (hq : c.qualified? = some q) (h : needsImport q root.package = true)
    (e : HostError) :
    Importing root c none [⟨.addImport root.file q, true, .error e⟩]

theorem giveImport_traced (root : Root) (c : ClassInfo) :
    Traced true (giveImport H c root.file root.package)
      (giveImport H.observed c root.file root.package) (Importing root c) := by
  unfold giveImport
  cases hneeded : c.qualified?.filter fun q => needsImport q root.package with
  | none =>
    rw [Option.filter_eq_none_iff] at hneeded
    exact Traced.pure (.needless fun q hq => Bool.eq_false_iff.2 (hneeded q hq))
  | some q =>
    obtain ⟨hq, hneeds⟩ := Option.filter_eq_some_iff.1 hneeded
    refine Traced.bind Traced.call fun reply tr htr => ?_
    subst htr
    cases reply with
    | ok u => exact Traced.pure (.imported hq hneeds)
    | error e =>
      refine Traced.bind (Traced.log rfl) fun u tr htr => ?_
      subst htr
      exact Traced.pure (.lost hq hneeds e)

/-! ## The write action -/

/-- The ways in which the edits for the class `c` of the new file `file` go, with all calls that are
made for them: `stopped` if a change of the class or reading the file again fails, and `completed`
otherwise, with the import last. -/
inductive Editing (policy : VisibilityPolicy) (root : Root) (isWanted : Bool) (file : FileId)
    (c : ClassInfo) : Except Failure Created → List Observation → Prop
  | stopped {level? : Option Visibility} {asked tr : List Observation} {e : HostError}
    (hopen : Opening policy c root.file level? asked)
    (htr : Stops (levelCalls c level? ++ (constructorCalls isWanted c ++ [.classesOf file])) e tr) :
    Editing policy root isWanted file c (.error (.host e)) (asked ++ tr)
  | completed {level? : Option Visibility} {asked tr imports : List Observation}
    {imported? : Option QualifiedName} (ds : List ClassInfo)
    (hopen : Opening policy c root.file level? asked)
    (htr : Passes (levelCalls c level? ++ constructorCalls isWanted c) tr)
    (himport : Importing root (c.among ds) imported? imports) :
    Editing policy root isWanted file c
      (.ok ⟨c.among ds, level?, isWanted && c.kind = .plain, imported?⟩)
      (asked ++ (tr ++ (⟨.classesOf file, true, .ok ds⟩ :: imports)))

/-- The calls that edits for the class `c` of the new file `file` are made of, but for the import. -/
inductive EditCall (file : FileId) (c : ClassInfo) : Call → Prop
  | asked (v? : Option Visibility) (origin : FileId) :
    EditCall file c (.isAccessible { c with visibility? := v? } origin)
  | opened (v : Visibility) : EditCall file c (.setVisibility c v)
  | constructed : EditCall file c (.addConstructor c)
  | reread : EditCall file c (.classesOf file)

theorem EditCall.of_changes {file : FileId} {c : ClassInfo} {level? : Option Visibility}
    {isWanted : Bool} {call : Call}
    (h : call ∈ levelCalls c level? ++ (constructorCalls isWanted c ++ [.classesOf file])) :
    EditCall file c call := by
  rcases List.mem_append.1 h with h | h
  · obtain ⟨v, -, rfl⟩ := List.mem_map.1 h
    exact .opened v
  · rcases List.mem_append.1 h with h | h
    · unfold constructorCalls at h
      split at h
      · rw [List.mem_singleton.1 h]
        exact .constructed
      · cases h
    · rw [List.mem_singleton.1 h]
      exact .reread

theorem EditCall.of_opening {policy : VisibilityPolicy} {c : ClassInfo} {origin file : FileId}
    {level? : Option Visibility} {asked : List Observation}
    (h : Opening policy c origin level? asked) {o : Observation} (ho : o ∈ asked) :
    EditCall file c o.call := by
  obtain ⟨v?, answer, rfl⟩ := h.exists_query o ho
  exact .asked v? origin

/-- Edits that fail never come to the import. -/
theorem Editing.editCall {policy : VisibilityPolicy} {root : Root} {isWanted : Bool} {file : FileId}
    {c : ClassInfo} {r : Except Failure Created} {tr : List Observation}
    (h : Editing policy root isWanted file c r tr) {o : Observation} (ho : o ∈ tr) :
    EditCall file c o.call ∨ ∃ q created, o.call = .addImport root.file q ∧ r = .ok created := by
  cases h with
  | stopped hopen htr =>
    rcases List.mem_append.1 ho with ho | ho
    · exact .inl (.of_opening hopen ho)
    · exact .inl (.of_changes (htr.1.subset (List.mem_map_of_mem ho)))
  | @completed level? _ _ _ _ ds hopen htr himport =>
    rcases List.mem_append.1 ho with ho | ho
    · exact .inl (.of_opening hopen ho)
    · rcases List.mem_append.1 ho with ho | ho
      · have hcall := List.mem_map_of_mem (f := Observation.call) ho
        rw [htr.1] at hcall
        have hmem : o.call ∈
            levelCalls c level? ++ (constructorCalls isWanted c ++ [.classesOf file]) := by
          rw [← List.append_assoc]
          exact List.mem_append_left _ hcall
        exact .inl (.of_changes hmem)
      · rcases List.mem_cons.1 ho with rfl | ho
        · exact .inl .reread
        · cases himport with
          | needless => cases ho
          | imported | lost =>
            rw [List.mem_singleton.1 ho]
            exact .inr ⟨_, _, rfl, rfl⟩

/-- The ways in which the write action of a fix goes, with all calls that are made in it: `unmade` if
the file `f` cannot be made, `unread` if its classes cannot be read, `classless` if it has none, and
`edited` with the edits for its first class otherwise. -/
inductive Creation (policy : VisibilityPolicy) (root : Root) (request : CreationRequest)
    (directory : DirectoryId) (f : NewFile) : Except Failure Created → List Observation → Prop
  | unmade (e : HostError) :
    Creation policy root request directory f (.error (makingFailure f.className e))
      [⟨.createFile directory f, true, .error e⟩]
  | unread (file : FileId) (e : HostError) :
    Creation policy root request directory f (.error (.host e))
      [⟨.createFile directory f, true, .ok file⟩, ⟨.classesOf file, true, .error e⟩]
  | classless (file : FileId) :
    Creation policy root request directory f
      (.error (.noClass f.className Message.noClass.pattern))
      [⟨.createFile directory f, true, .ok file⟩, ⟨.classesOf file, true, .ok []⟩]
  | edited (file : FileId) (c : ClassInfo) (cs : List ClassInfo) {r : Except Failure Created}
    {tr : List Observation} (htr : Editing policy root request.addConstructor file c r tr) :
    Creation policy root request directory f r
      (⟨.createFile directory f, true, .ok file⟩ :: ⟨.classesOf file, true, .ok (c :: cs)⟩ :: tr)

/-- The edits for the class `c` of the new file `file`. -/
def editClass (H : Host σ) (policy : VisibilityPolicy) (root : Root) (isWanted : Bool)
    (file : FileId) (c : ClassInfo) : Attempt σ Created := do
  let widened? ← widen H policy c root.file
  let constructorAdded ← giveConstructor H isWanted c
  let d ← reread H c file
  let imported? ← giveImport H d root.file root.package
  return ⟨d, widened?, constructorAdded, imported?⟩

theorem editClass_traced (policy : VisibilityPolicy) (root : Root) (isWanted : Bool)
    (file : FileId) (c : ClassInfo) :
    Traced true (editClass H policy root isWanted file c).run
      (editClass H.observed policy root isWanted file c).run
      (Editing policy root isWanted file c) := by
  unfold editClass
  refine Traced.bindRun (widen_traced policy c root.file) ?_ ?_
  · rintro level? _ ⟨_, asked, tr₁, rfl, hopen, hwiden, hlevel⟩
    cases hlevel _ rfl
    refine Traced.bindRun (giveConstructor_traced isWanted c) ?_ ?_
    · rintro _ tr₂ ⟨hadd, hisAdded⟩
      cases hisAdded _ rfl
      have hchange : Passes (levelCalls c level? ++ constructorCalls isWanted c) (tr₁ ++ tr₂) :=
        Passes.append hwiden hadd
      refine Traced.bindRun (reread_traced c file) ?_ ?_
      · rintro d _ ⟨reply, rfl, hread⟩
        cases reply with
        | error e => cases hread
        | ok ds =>
          cases hread
          have himports := giveImport_traced (H := H) root (c.among ds)
          refine Traced.bindLift himports fun imported? imports himport => Traced.pure ?_
          rw [List.append_nil, List.append_assoc, List.singleton_append, ← List.append_assoc tr₁]
          exact .completed ds hopen hchange himport
      · rintro f _ ⟨reply, rfl, hread⟩
        cases reply with
        | ok ds => cases hread
        | error e =>
          cases hread
          have hstops : Stops [.classesOf file] e [⟨.classesOf file, true, .error e⟩] :=
            stops_one rfl
          rw [List.append_assoc]
          exact .stopped hopen (Passes.stops hwiden (Passes.stops hadd hstops))
    · rintro f tr₂ ⟨⟨e, rfl, hadd⟩, -⟩
      rw [List.append_assoc]
      exact .stopped hopen (Passes.stops hwiden (hadd.append [.classesOf file]))
  · rintro f _ ⟨level?, asked, tr₁, rfl, hopen, ⟨e, rfl, hwiden⟩, -⟩
    exact .stopped hopen (hwiden.append _)

variable {fix : CreateClass} {s : CreateSettings} {root : Root} {request : CreationRequest}
  {directory : DirectoryId}

/-- The file that the fix makes for a request. -/
def CreateClass.newFile (fix : CreateClass) (s : CreateSettings) (request : CreationRequest) :
    NewFile :=
  ⟨request.className, s.fileName request.className, s.templates.get fix.reference.kind,
    request.package⟩

theorem create_unnamed (h : request.className = []) :
    Traced true (fix.create H s root request directory).run
      (fix.create H.observed s root request directory).run fun r tr =>
        r = .error .cancelled ∧ tr = [] := by
  unfold CreateClass.create
  rw [h]
  exact Traced.pure ⟨rfl, rfl⟩

theorem create_named (h : request.className ≠ []) :
    fix.create H s root request directory = (do
      let file ← makeFile H directory (fix.newFile s request)
      let c ← firstClass H request.className file
      logged (createdEvent { c with file := file } (fix.newFile s request).template)
      editClass H s.policy root request.addConstructor file c) := by
  unfold CreateClass.create
  exact if_neg fun h' => h (List.isEmpty_iff.1 h')

theorem create_traced (h : request.className ≠ []) :
    Traced true (fix.create H s root request directory).run
      (fix.create H.observed s root request directory).run
      (Creation s.policy root request directory (fix.newFile s request)) := by
  rw [create_named h, create_named h]
  refine Traced.bindRun (makeFile_traced directory (fix.newFile s request)) ?_ ?_
  · rintro file _ ⟨reply, rfl, hmade⟩
    cases reply with
    | error e => cases hmade
    | ok made =>
      cases hmade
      refine Traced.bindRun (firstClass_traced request.className file) ?_ ?_
      · intro c _ hfirst
        cases hfirst with
        | found c cs =>
          refine Traced.bindLogged rfl ?_
          have hedit := editClass_traced (H := H) s.policy root request.addConstructor file c
          exact hedit.mono fun r tr htr => .edited file c cs htr
      · intro f _ hfirst
        cases hfirst with
        | classless => exact .classless file
        | unread e => exact .unread file e
  · rintro f _ ⟨reply, rfl, hmade⟩
    cases reply with
    | ok file => cases hmade
    | error e =>
      cases hmade
      exact .unmade e

end QuickFix.Fix
