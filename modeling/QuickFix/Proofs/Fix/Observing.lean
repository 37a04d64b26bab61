import QuickFix.Fix.Create

/-!
# Sessions observed

`Host.observed` passes every call on to a host and writes it down with its answer. `Traced` takes a
program against a host and the same program against the host observed: both come to the same
(`Mirrors`), and the calls written down satisfy a property of them and of the result. There is a rule
for each way to put programs together; `Ends` is the same for a whole session, which may open a write
action and leave a notice.
-/

namespace QuickFix.Fix

/-- A call that was made, whether a write action was open, and the answer. -/
structure Observation where
  call : Call
  isWriting : Bool
  reply : call.Reply

/-- The error that a call was answered with, if it was. -/
def Call.error? : (c : Call) → c.Reply → Option HostError
  | .createFile _ _, .error e => some e
  | .classesOf _, .error e => some e
  | .setVisibility _ _, .error e => some e
  | .addConstructor _, .error e => some e
  | .addImport _ _, .error e => some e
  | .openEditor _ _ _, .error e => some e
  | _, _ => none

def Observation.error? (o : Observation) : Option HostError := o.call.error? o.reply

/-- The host, with the calls to it written down. It logs nothing, so that the events of a session are
its own. -/
def Host.observed {σ : Type} (H : Host σ) : Host (σ × List Observation) := fun c isWriting w =>
  let r := H c isWriting w.1
  ⟨r.reply, (r.world, w.2 ++ [⟨c, isWriting, r.reply⟩]), []⟩

variable {σ α β : Type} {H : Host σ}

/-- The situations of a session and of the same session observed. -/
structure Mirrors (s : Situation σ) (s' : Situation (σ × List Observation)) : Prop where
  world : s'.world.1 = s.world
  depth : s'.depth = s.depth
  notice? : s'.notice? = s.notice?

theorem Mirrors.isWriting {s : Situation σ} {s' : Situation (σ × List Observation)}
    (h : Mirrors s s') : s'.isWriting = s.isWriting := by
  unfold Situation.isWriting
  rw [h.depth]

/-- Both programs give the same result and leave mirrored situations; the calls in between, all made
with a write action open or all without, satisfy `Q` with the result. The programs open no write
action, leave no notice and log as the fix. -/
def Traced (isWriting : Bool) (p : Session σ α) (p' : Session (σ × List Observation) α)
    (Q : α → List Observation → Prop) : Prop :=
  ∀ s s', Mirrors s s' → s.isWriting = isWriting →
    (p' s').1 = (p s).1 ∧ Mirrors (p s).2 (p' s').2 ∧
      (p s).2.depth = s.depth ∧ (p s).2.notice? = s.notice? ∧
      ∃ tr own, (p' s').2.world.2 = s'.world.2 ++ tr ∧ (p' s').2.events = s'.events ++ own ∧
        (∀ o ∈ tr, o.isWriting = isWriting) ∧ (∀ e ∈ own, e.target = "nova.ide") ∧ Q (p s).1 tr

namespace Traced

variable {b : Bool} {p : Session σ α} {p' : Session (σ × List Observation) α}
  {Q Q' : α → List Observation → Prop}

theorem mono (h : Traced b p p' Q) (hq : ∀ a tr, Q a tr → Q' a tr) : Traced b p p' Q' := by
  intro s s' hm hb
  obtain ⟨hr, hm', hd, hn, tr, own, hw, he, hflag, hown, hQ⟩ := h s s' hm hb
  exact ⟨hr, hm', hd, hn, tr, own, hw, he, hflag, hown, hq _ _ hQ⟩

theorem pure {a : α} (h : Q a []) :
    Traced b (Pure.pure a : Session σ α) (Pure.pure a : Session (σ × List Observation) α) Q := by
  intro s s' hm hb
  refine ⟨rfl, hm, rfl, rfl, [], [], ?_, ?_, fun o ho => (by cases ho), fun e he => (by cases he),
    h⟩
  · exact (List.append_nil _).symm
  · exact (List.append_nil _).symm

theorem log {e : Log.Event} (he : e.target = "nova.ide") :
    Traced b (Session.log e : Session σ Unit)
      (Session.log e : Session (σ × List Observation) Unit) fun _ tr => tr = [] := by
  intro s s' hm hb
  refine ⟨rfl, ⟨hm.world, hm.depth, hm.notice?⟩, rfl, rfl, [], [e], ?_, rfl,
    fun o ho => (by cases ho), fun x hx => ?_, rfl⟩
  · exact (List.append_nil _).symm
  · rw [List.mem_singleton.1 hx]
    exact he

theorem call {c : Call} :
    Traced b (Session.call H c) (Session.call H.observed c) fun r tr => tr = [⟨c, b, r⟩] := by
  intro s s' hm hb
  have hw : H.observed c s'.isWriting s'.world = ⟨(H c b s.world).reply,
      ((H c b s.world).world, s'.world.2 ++ [⟨c, b, (H c b s.world).reply⟩]), []⟩ := by
    rw [hm.isWriting, hb, ← hm.world]
    rfl
  have hp : Session.call H c s = ((H c b s.world).reply,
      { s with world := (H c b s.world).world, events := s.events ++ (H c b s.world).events }) := by
    unfold Session.call
    rw [hb]
  have hp' : Session.call H.observed c s' = ((H c b s.world).reply, { s' with
      world := ((H c b s.world).world, s'.world.2 ++ [⟨c, b, (H c b s.world).reply⟩])
      events := s'.events ++ [] }) := by
    unfold Session.call
    rw [hw]
  rw [hp, hp']
  refine ⟨rfl, ⟨rfl, hm.depth, hm.notice?⟩, rfl, rfl, _, [], rfl, rfl, fun o ho => ?_,
    fun e he => (by cases he), rfl⟩
  rw [List.mem_singleton.1 ho]

theorem bind {f : α → Session σ β} {f' : α → Session (σ × List Observation) β}
    {R : β → List Observation → Prop} (h : Traced b p p' Q)
    (hf : ∀ a tr, Q a tr → Traced b (f a) (f' a) fun r tr' => R r (tr ++ tr')) :
    Traced b (p >>= f) (p' >>= f') R := by
  intro s s' hm hb
  obtain ⟨hr, hm₁, hd, hn, tr, own, hw, he, hflag, hown, hQ⟩ := h s s' hm hb
  have hb₁ : (p s).2.isWriting = b := by rw [← hb, Situation.isWriting, hd]; rfl
  obtain ⟨hr₂, hm₂, hd₂, hn₂, tr₂, own₂, hw₂, he₂, hflag₂, hown₂, hR⟩ :=
    hf (p s).1 tr hQ (p s).2 (p' s').2 hm₁ hb₁
  have hp : (p >>= f) s = f (p s).1 (p s).2 := rfl
  have hp' : (p' >>= f') s' = f' (p s).1 (p' s').2 := by rw [← hr]; rfl
  rw [hp, hp']
  refine ⟨hr₂, hm₂, hd₂.trans hd, hn₂.trans hn, tr ++ tr₂, own ++ own₂, ?_, ?_, ?_, ?_, hR⟩
  · rw [hw₂, hw, List.append_assoc]
  · rw [he₂, he, List.append_assoc]
  · exact List.forall_mem_append.2 ⟨hflag, hflag₂⟩
  · exact List.forall_mem_append.2 ⟨hown, hown₂⟩

/-! ## Programs that may fail -/

theorem bindRun {x : Attempt σ α} {x' : Attempt (σ × List Observation) α}
    {f : α → Attempt σ β} {f' : α → Attempt (σ × List Observation) β}
    {Q : Except Failure α → List Observation → Prop}
    {R : Except Failure β → List Observation → Prop} (h : Traced b x.run x'.run Q)
    (hok : ∀ a tr, Q (.ok a) tr → Traced b (f a).run (f' a).run fun r tr' => R r (tr ++ tr'))
    (herr : ∀ e tr, Q (.error e) tr → R (.error e) tr) :
    Traced b (x >>= f).run (x' >>= f').run R := by
  rw [ExceptT.run_bind, ExceptT.run_bind]
  refine h.bind fun r tr hr => ?_
  cases r with
  | ok a => exact hok a tr hr
  | error e =>
    refine Traced.pure ?_
    rw [List.append_nil]
    exact herr e tr hr

theorem attempt {p : Session σ (Except HostError α)}
    {p' : Session (σ × List Observation) (Except HostError α)}
    {Q : Except HostError α → List Observation → Prop} (h : Traced b p p' Q) :
    Traced b (Fix.attempt p).run (Fix.attempt p').run
      fun r tr => ∃ reply, r = Except.mapError .host reply ∧ Q reply tr := by
  refine h.bind fun r tr hr => Traced.pure ⟨r, rfl, ?_⟩
  rw [List.append_nil]
  exact hr

/-- A program that cannot fail, with what is done after it. -/
theorem bindLift {f : α → Attempt σ β} {f' : α → Attempt (σ × List Observation) β}
    {R : Except Failure β → List Observation → Prop} (h : Traced b p p' Q)
    (hf : ∀ a tr, Q a tr → Traced b (f a).run (f' a).run fun r tr' => R r (tr ++ tr')) :
    Traced b ((ExceptT.lift p : Attempt σ α) >>= f).run
      ((ExceptT.lift p' : Attempt _ α) >>= f').run R := by
  have hlift : Traced b (ExceptT.lift p : Attempt σ α).run (ExceptT.lift p' : Attempt _ α).run
      fun r tr => ∃ a, r = .ok a ∧ Q a tr := by
    rw [ExceptT.run_lift, ExceptT.run_lift, map_eq_pure_bind, map_eq_pure_bind]
    refine h.bind fun a tr ha => Traced.pure ⟨a, rfl, ?_⟩
    rw [List.append_nil]
    exact ha
  refine hlift.bindRun ?_ ?_
  · rintro a tr ⟨_, ⟨⟩, ha⟩
    exact hf a tr ha
  · rintro e tr ⟨_, ⟨⟩, -⟩

theorem bindLogged {e : Log.Event} {f : Unit → Attempt σ β}
    {f' : Unit → Attempt (σ × List Observation) β} {R : Except Failure β → List Observation → Prop}
    (he : e.target = "nova.ide") (hf : Traced b (f ()).run (f' ()).run R) :
    Traced b (logged e >>= f).run (logged e >>= f').run R := by
  refine bindLift (log he) fun u tr htr => ?_
  subst htr
  exact hf

end Traced

/-! ## Whole sessions -/

/-- The events that tell of a write action being opened. -/
def openings (events : List Log.Event) : List Log.Event :=
  events.filter fun e => e.target = "nova.scheduler"

theorem openings_append (events events' : List Log.Event) :
    openings (events ++ events') = openings events ++ openings events' :=
  List.filter_append events events'

theorem openings_eq_nil {events : List Log.Event} (h : ∀ e ∈ events, e.target = "nova.ide") :
    openings events = [] := by
  unfold openings
  rw [List.filter_eq_nil_iff]
  intro e he
  rw [h e he]
  decide

theorem openings_startedEvent (n : Nat) (events : List Log.Event) :
    openings (Schedule.startedEvent n :: events) = Schedule.startedEvent n :: openings events :=
  List.filter_cons_of_pos (decide_eq_true rfl)

/-- Both programs, started with no write action open and no notice, give the same result and leave
mirrored situations with no write action open; the calls in between, the notice that is left and the
write actions that were opened satisfy `Q` with the result. -/
def Ends (p : Session σ α) (p' : Session (σ × List Observation) α)
    (Q : α → List Observation → Option ErrorNotice → List Log.Event → Prop) : Prop :=
  ∀ s s', Mirrors s s' → s.depth = 0 → s.notice? = none →
    (p' s').1 = (p s).1 ∧ Mirrors (p s).2 (p' s').2 ∧ (p s).2.depth = 0 ∧
      ∃ tr own, (p' s').2.world.2 = s'.world.2 ++ tr ∧ (p' s').2.events = s'.events ++ own ∧
        Q (p s).1 tr (p s).2.notice? (openings own)

namespace Ends

variable {p : Session σ α} {p' : Session (σ × List Observation) α}

theorem isWriting_eq_false {s : Situation σ} (h : s.depth = 0) : s.isWriting = false := by
  unfold Situation.isWriting
  rw [h]
  rfl

theorem mono {Q Q' : α → List Observation → Option ErrorNotice → List Log.Event → Prop}
    (h : Ends p p' Q) (hq : ∀ a tr n ws, Q a tr n ws → Q' a tr n ws) : Ends p p' Q' := by
  intro s s' hm hd hn
  obtain ⟨hr, hm', hd', tr, own, hw, he, hQ⟩ := h s s' hm hd hn
  exact ⟨hr, hm', hd', tr, own, hw, he, hq _ _ _ _ hQ⟩

theorem of_traced {Q : α → List Observation → Option ErrorNotice → List Log.Event → Prop}
    (h : Traced false p p' fun a tr => Q a tr none []) : Ends p p' Q := by
  intro s s' hm hd hn
  obtain ⟨hr, hm₁, hd₁, hn₁, tr, own, hw, he, -, hown, hQ⟩ := h s s' hm (isWriting_eq_false hd)
  refine ⟨hr, hm₁, hd₁.trans hd, tr, own, hw, he, ?_⟩
  rw [hn₁, hn, openings_eq_nil hown]
  exact hQ

theorem bind {f : α → Session σ β} {f' : α → Session (σ × List Observation) β}
    {Q : α → List Observation → Prop}
    {R : β → List Observation → Option ErrorNotice → List Log.Event → Prop}
    (h : Traced false p p' Q)
    (hf : ∀ a tr, (∀ o ∈ tr, o.isWriting = false) → Q a tr →
      Ends (f a) (f' a) fun r tr' => R r (tr ++ tr')) :
    Ends (p >>= f) (p' >>= f') R := by
  intro s s' hm hd hn
  obtain ⟨hr, hm₁, hd₁, hn₁, tr, own, hw, he, hflag, hown, hQ⟩ :=
    h s s' hm (isWriting_eq_false hd)
  obtain ⟨hr₂, hm₂, hd₂, tr₂, own₂, hw₂, he₂, hR⟩ :=
    hf (p s).1 tr hflag hQ (p s).2 (p' s').2 hm₁ (hd₁.trans hd) (hn₁.trans hn)
  have hp : (p >>= f) s = f (p s).1 (p s).2 := rfl
  have hp' : (p' >>= f') s' = f' (p s).1 (p' s').2 := by rw [← hr]; rfl
  rw [hp, hp']
  refine ⟨hr₂, hm₂, hd₂, tr ++ tr₂, own ++ own₂, ?_, ?_, ?_⟩
  · rw [hw₂, hw, List.append_assoc]
  · rw [he₂, he, List.append_assoc]
  · rw [openings_append, openings_eq_nil hown]
    exact hR

/-- A write action, with what is done after it. -/
theorem write {f : α → Session σ β} {f' : α → Session (σ × List Observation) β}
    {Q : α → List Observation → Prop}
    {R : β → List Observation → Option ErrorNotice → List Log.Event → Prop}
    (h : Traced true p p' Q)
    (hf : ∀ a tr, (∀ o ∈ tr, o.isWriting = true) → Q a tr →
      Ends (f a) (f' a) fun r tr' n ws => R r (tr ++ tr') n (Schedule.startedEvent 1 :: ws)) :
    Ends (Session.write p >>= f) (Session.write p' >>= f') R := by
  intro s s' hm hd hn
  -- The situations in which the write action has just been opened.
  let t : Situation σ :=
    { s with depth := s.depth + 1, events := s.events ++ [Schedule.startedEvent (s.depth + 1)] }
  let t' : Situation (σ × List Observation) :=
    { s' with depth := s'.depth + 1, events := s'.events ++ [Schedule.startedEvent (s'.depth + 1)] }
  have ht : Mirrors t t' := ⟨hm.world, congrArg (· + 1) hm.depth, hm.notice?⟩
  obtain ⟨hr, hm₁, hd₁, hn₁, tr, own, hw, he, hflag, hown, hQ⟩ :=
    h t t' ht (decide_eq_true (Nat.succ_pos s.depth))
  -- The situations in which it is closed again.
  let u : Situation σ := { (p t).2 with depth := (p t).2.depth - 1 }
  let u' : Situation (σ × List Observation) := { (p' t').2 with depth := (p' t').2.depth - 1 }
  have hu : Mirrors u u' := ⟨hm₁.world, congrArg (· - 1) hm₁.depth, hm₁.notice?⟩
  have hud : u.depth = 0 := by
    show (p t).2.depth - 1 = 0
    rw [hd₁]
    show s.depth + 1 - 1 = 0
    omega
  obtain ⟨hr₂, hm₂, hd₂, tr₂, own₂, hw₂, he₂, hR⟩ :=
    hf (p t).1 tr hflag hQ u u' hu hud (hn₁.trans hn)
  have hp : (Session.write p >>= f) s = f (p t).1 u := rfl
  have hp' : (Session.write p' >>= f') s' = f' (p t).1 u' := by rw [← hr]; rfl
  rw [hp, hp']
  refine ⟨hr₂, hm₂, hd₂, tr ++ tr₂, Schedule.startedEvent 1 :: (own ++ own₂), ?_, ?_, ?_⟩
  · rw [hw₂, ← List.append_assoc, ← hw]
  · have h₀ : s'.depth + 1 = 1 := by rw [hm.depth, hd]
    rw [he₂]
    show (p' t').2.events ++ own₂ = _
    rw [he]
    show s'.events ++ [Schedule.startedEvent (s'.depth + 1)] ++ own ++ own₂ = _
    rw [h₀, List.append_assoc, List.append_assoc, List.singleton_append]
  · rw [openings_startedEvent, openings_append, openings_eq_nil hown]
    exact hR

/-- A notice, with nothing done after it. -/
theorem post {Q : α → List Observation → Option ErrorNotice → List Log.Event → Prop}
    {n : ErrorNotice} {a : α} (h : Q a [] (some n) []) :
    Ends (do Session.post n; return a : Session σ α)
      (do Session.post n; return a : Session (σ × List Observation) α) Q := by
  intro s s' hm hd hn
  refine ⟨rfl, ⟨hm.world, hm.depth, rfl⟩, hd, [], [], ?_, ?_, h⟩
  · exact (List.append_nil _).symm
  · exact (List.append_nil _).symm

end Ends

end QuickFix.Fix
