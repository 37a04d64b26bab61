import QuickFix.Fix.Host

/-!
# Hosts that know the code otherwise

An override stands before a host and changes what it says about code: some calls fail, some are
answered without asking the host, and some answers lose a part. All other calls are passed on.
-/

namespace QuickFix.Fix

/-- What is changed about the answers of a host. -/
structure Override where
  /-- The number of the call for classes, from one, that fails, and its error. -/
  failClasses? : Option (Nat × HostError)
  /-- Have classes no visibility? -/
  hidesVisibility : Bool
  /-- Have classes no qualified name? -/
  hidesName : Bool
  /-- The level from which on classes can be used anywhere. -/
  accessibleFrom? : Option Visibility
  /-- The error that every change of visibility ends in. -/
  failVisibility? : Option HostError
  /-- The error that every new constructor ends in. -/
  failConstructor? : Option HostError
  deriving DecidableEq, Repr

namespace Override

/-- Nothing is changed. -/
def none : Override := ⟨.none, false, false, .none, .none, .none⟩

/-- A class without what is hidden. -/
def hide (o : Override) (c : ClassInfo) : ClassInfo := { c with
  visibility? := if o.hidesVisibility then .none else c.visibility?
  qualified? := if o.hidesName then .none else c.qualified? }

/-- Can a class be used anywhere, if `level` is the least level for that? -/
def reaches (level : Visibility) (c : ClassInfo) : Bool :=
  c.visibility?.any fun v => level.rank ≤ v.rank

variable {σ : Type}

/-- Pass a call on. The number beside the world counts the calls for classes. -/
def pass (H : Host σ) (c : Call) (isWriting : Bool) (w : σ × Nat) : Response (σ × Nat) c :=
  let r := H c isWriting w.1
  ⟨r.reply, (r.world, w.2), r.events⟩

/-- The classes of a file. -/
def classesOf (o : Override) (H : Host σ) (id : FileId) (isWriting : Bool) (w : σ × Nat) :
    Response (σ × Nat) (.classesOf id) :=
  let w := (w.1, w.2 + 1)
  match o.failClasses?.filter fun f => f.1 = w.2 with
  | some (_, e) => ⟨.error e, w, []⟩
  | .none =>
    let r := pass H (.classesOf id) isWriting w
    ⟨r.reply.map fun cs => cs.map o.hide, r.world, r.events⟩

/-- The host behind the override. -/
def before (o : Override) (H : Host σ) : Host (σ × Nat) := fun c isWriting w =>
  match c with
  | .classesOf id => o.classesOf H id isWriting w
  | .isAccessible c origin =>
    match o.accessibleFrom? with
    | some level => ⟨reaches level c, w, []⟩
    | .none => pass H (.isAccessible c origin) isWriting w
  | .setVisibility c v =>
    match o.failVisibility? with
    | some e => ⟨.error e, w, []⟩
    | .none => pass H (.setVisibility c v) isWriting w
  | .addConstructor c =>
    match o.failConstructor? with
    | some e => ⟨.error e, w, []⟩
    | .none => pass H (.addConstructor c) isWriting w
  | c => pass H c isWriting w

end Override

end QuickFix.Fix
