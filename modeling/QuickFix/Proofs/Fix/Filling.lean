import QuickFix.Fix.Message
import QuickFix.Proofs.Text.Digits
import QuickFix.Proofs.Text.Exchanging

/-!
# Arguments in messages

Arguments are put into a message one after the other, so a later one also goes to the places that an
earlier one brings in. `Message.fillOnce` puts all of them in at once, and looks at nothing that an
argument brings in.

* `replaceAll_place`, `fill_append_cons`: both ways go over a text from the left, and a character that
  stands in no place parts what is before it from what is behind it;
* `Spaced.fill_eq`: where places stand apart, filling them one after the other is filling them at once
  with `settled` arguments, each with the later ones in it;
* `Message.render_filled`: a message is filled at once if no argument changes in this way, and for as many
  arguments as a message can have only then.
-/

namespace QuickFix

namespace Fix.Message

open Text

/-! ## Places -/

theorem place_eq (i : Nat) : place i = '\x7b' :: (Text.ofNat i ++ ['\x7d']) := rfl

theorem place_ne_nil (i : Nat) : place i ≠ [] := List.cons_ne_nil _ _

/-- A character that stands in no place. -/
def IsOutside (c : Char) : Prop := ∀ i, c ∉ place i

theorem isOutside_of {c : Char} (hopen : c ≠ '\x7b') (hclose : c ≠ '\x7d')
    (hdigit : c.isDigit = false) : IsOutside c := by
  intro i hi
  simp only [place_eq, List.mem_cons, List.mem_append, List.not_mem_nil, or_false] at hi
  rcases hi with hi | hi | hi
  · exact hopen hi
  · rw [isDigit_of_mem_ofNat hi] at hdigit
    cases hdigit
  · exact hclose hi

theorem after?_place (i j : Nat) : after? (place i) (place j) = if i = j then some [] else none := by
  split
  · rename_i h
    subst h
    exact after?_eq_some_iff.2 (List.append_nil _).symm
  · rename_i h
    cases hr : after? (place i) (place j) with
    | none => rfl
    | some r =>
      -- The closing brace ends the digits of both.
      have heq := after?_eq_some_iff.1 hr
      simp only [place_eq, List.cons_append, List.cons.injEq, true_and, List.append_assoc,
        List.nil_append] at heq
      have hdigit : ∀ n, ∀ c ∈ Text.ofNat n, (c ≠ '\x7d' : Bool) = true := fun n c hc => by
        have := isDigit_of_mem_ofNat hc
        rcases decEq c '\x7d' with hne | rfl
        · simpa using hne
        · cases this
      have htake : ∀ n (u : Text), (Text.ofNat n ++ '\x7d' :: u).takeWhile (· ≠ '\x7d') =
          Text.ofNat n := fun n u => by
        rw [List.takeWhile_append_of_pos (hdigit n)]
        simp
      have := congrArg (List.takeWhile (· ≠ '\x7d')) heq
      rw [htake, htake] at this
      exact absurd (ofNat_injective this).symm h

theorem after?_place_of_ne {c : Char} (hc : c ≠ '\x7b') (i : Nat) (t : Text) :
    after? (place i) (c :: t) = none := by
  rw [place_eq, after?, if_neg (Ne.symm hc)]

/-! ## All arguments at once -/

/-- The argument whose place a text starts with, and what follows the place. The first argument has
number `i`. -/
def argumentAt? (i : Nat) (args : List Text) (t : Text) : Option (Text × Text) :=
  (args.zipIdx i).findSome? fun (arg, i) => (after? (place i) t).map (arg, ·)

/-- The text with the arguments in their places, all of them put in at once: what an argument brings
in stays as it is. -/
def fillOnce (args : List Text) (t : Text) : Text := exchange (argumentAt? 0 args) t

theorem argumentAt?_cons (i : Nat) (arg : Text) (args : List Text) (t : Text) :
    argumentAt? i (arg :: args) t =
      ((after? (place i) t).map (arg, ·)).or (argumentAt? (i + 1) args t) := by
  simp only [argumentAt?, List.zipIdx_cons, List.findSome?_cons]
  cases after? (place i) t <;> rfl

theorem argumentAt?_place (i k : Nat) (args : List Text) :
    argumentAt? i args (place (i + k)) = args[k]?.map (·, []) := by
  induction args generalizing i k with
  | nil => rfl
  | cons arg args ih =>
    rw [argumentAt?_cons, after?_place]
    cases k with
    | zero => simp
    | succ k =>
      have := ih (i + 1) k
      rw [show i + 1 + k = i + (k + 1) by omega] at this
      simp [this]

theorem argumentAt?_of_ne {c : Char} (hc : c ≠ '\x7b') (i : Nat) (args : List Text) (t : Text) :
    argumentAt? i args (c :: t) = none := by
  induction args generalizing i with
  | nil => rfl
  | cons arg args ih => rw [argumentAt?_cons, after?_place_of_ne hc, ih]; rfl

/-- A place gets its argument, if there is one. -/
theorem exchange_place (i k : Nat) (args : List Text) :
    exchange (argumentAt? i args) (place (i + k)) = args[k]?.getD (place (i + k)) := by
  have hat := argumentAt?_place i k args
  cases hk : args[k]? with
  | some arg => exact exchange_whole (place_ne_nil _) (by rw [hat, hk]; rfl)
  | none =>
    rw [hk, Option.map_none, place_eq] at hat
    rw [place_eq, exchange_of_none hat, Option.getD_none]
    refine congrArg _ (exchange_eq_self fun c hc => argumentAt?_of_ne ?_ i args)
    rintro rfl
    rcases List.mem_append.1 hc with hc | hc
    · cases isDigit_of_mem_ofNat hc
    · cases List.mem_singleton.1 hc

theorem parted_argumentAt? {c : Char} (hc : IsOutside c) (i : Nat) (args : List Text) :
    Parted (argumentAt? i args) c where
  here t := argumentAt?_of_ne (by rintro rfl; exact hc 0 List.mem_cons_self) i args t
  across d a t := by
    induction args generalizing i with
    | nil => rfl
    | cons arg args ih =>
      rw [argumentAt?_cons, argumentAt?_cons, ih, ← List.cons_append,
        after?_append_cons (hc i)]
      cases after? (place i) (d :: a) <;> rfl

/-- One argument is put in the same way. -/
theorem replaceAll_place (i : Nat) (arg t : Text) :
    replaceAll (place i) arg t = exchange (argumentAt? i [arg]) t := by
  rw [replaceAll_eq_exchange]
  refine congrArg (exchange · t) (funext fun u => ?_)
  rw [argumentAt?_cons]
  cases after? (place i) u <;> rfl

/-! ## One argument after the other -/

theorem fill_append_cons {c : Char} (hc : IsOutside c) (i : Nat) (args : List Text) (a t : Text) :
    fill i args (a ++ c :: t) = fill i args a ++ c :: fill i args t := by
  induction args generalizing i a t with
  | nil => rfl
  | cons arg args ih =>
    simp only [fill, replaceAll_place]
    rw [exchange_append_cons (parted_argumentAt? hc i [arg]), ih]

theorem fill_eq_self {t : Text} (ht : '\x7b' ∉ t) (i : Nat) (args : List Text) :
    fill i args t = t := by
  induction args generalizing i with
  | nil => rfl
  | cons arg args ih =>
    rw [fill, replaceAll_place, exchange_eq_self, ih]
    exact fun c hc => argumentAt?_of_ne (fun h => ht (h ▸ hc)) i [arg]

/-- The arguments from number `i` on as they arrive: each with the later ones in the places that it
brings in. -/
def settled (i : Nat) : List Text → List Text
  | [] => []
  | arg :: args => fill (i + 1) args arg :: settled (i + 1) args

theorem length_settled (i : Nat) (args : List Text) : (settled i args).length = args.length := by
  induction args generalizing i with
  | nil => rfl
  | cons arg args ih => simp [settled, ih]

theorem fill_place (i k : Nat) (args : List Text) :
    fill i args (place (i + k)) = (settled i args)[k]?.getD (place (i + k)) := by
  induction args generalizing i k with
  | nil => rfl
  | cons arg args ih =>
    rw [fill, replaceAll_place, exchange_place]
    cases k with
    | zero => rfl
    | succ k =>
      have := ih (i + 1) k
      rw [show i + 1 + k = i + (k + 1) by omega] at this
      exact this

/-! ## Texts whose places stand apart -/

/-- A text in which any two places have a character between them that stands in no place. -/
inductive Spaced : Text → Prop
  | plain {t : Text} : '\x7b' ∉ t → Spaced t
  | place (i : Nat) : Spaced (place i)
  | apart {a t : Text} {c : Char} : IsOutside c → Spaced a → Spaced t → Spaced (a ++ c :: t)

theorem fillOnce_append_cons {c : Char} (hc : IsOutside c) (args : List Text) (a t : Text) :
    fillOnce args (a ++ c :: t) = fillOnce args a ++ c :: fillOnce args t :=
  exchange_append_cons (parted_argumentAt? hc 0 args) a t

theorem fillOnce_eq_self {t : Text} (ht : '\x7b' ∉ t) (args : List Text) : fillOnce args t = t :=
  exchange_eq_self fun _ hc => argumentAt?_of_ne (fun h => ht (h ▸ hc)) 0 args

theorem fillOnce_place (args : List Text) (k : Nat) :
    fillOnce args (place k) = args[k]?.getD (place k) := by
  have := exchange_place 0 k args
  rwa [Nat.zero_add] at this

/-- Where places stand apart, filling them one after the other is filling them at once with the
arguments as they arrive. -/
theorem Spaced.fill_eq {t : Text} (h : Spaced t) (args : List Text) :
    fill 0 args t = fillOnce (settled 0 args) t := by
  induction h with
  | plain ht => rw [fill_eq_self ht, fillOnce_eq_self ht]
  | place i => simpa [fillOnce_place] using fill_place 0 i args
  | apart hc _ _ iha iht => rw [fill_append_cons hc, fillOnce_append_cons hc, iha, iht]

theorem spaced_pattern (m : Message) : Spaced m.pattern := by
  have hmark : IsOutside '\'' := isOutside_of (by decide) (by decide) (by decide)
  have hblank : IsOutside ' ' := isOutside_of (by decide) (by decide) (by decide)
  cases m with
  | createClass =>
    exact .apart (a := "Create class ") hmark (.plain (by decide))
      (.apart hmark (.place 0) (.plain (by decide)))
  | cannotCreate =>
    exact .apart (a := "Cannot create class ") hmark (.plain (by decide))
      (.apart hmark (.place 0) (.apart (a := ":") hblank (.plain (by decide)) (.place 1)))
  | family | noClass | cannotCreateTitle => exact .plain (by decide)

/-! ## The messages -/

theorem fillOnce_createClass (args : List Text) : fillOnce args createClass.pattern =
    "Create class '" ++ (args[0]?.getD (place 0) ++ "'") := by
  have hmark : IsOutside '\'' := isOutside_of (by decide) (by decide) (by decide)
  have hlead : ("Create class '" : Text) = ("Create class " : Text) ++ ['\''] := by decide
  have hclose : ("'" : Text) = ['\''] := by decide
  have hpattern : createClass.pattern = ("Create class " : Text) ++ '\'' :: (place 0 ++ '\'' :: []) := by
    decide
  rw [hpattern, fillOnce_append_cons hmark, fillOnce_append_cons hmark, fillOnce_place,
    fillOnce_eq_self (by decide), fillOnce_eq_self (by decide), hlead, hclose, List.append_assoc,
    List.singleton_append]

theorem fillOnce_cannotCreate (args : List Text) : fillOnce args cannotCreate.pattern =
    "Cannot create class '" ++
      (args[0]?.getD (place 0) ++ ("': " ++ args[1]?.getD (place 1))) := by
  have hmark : IsOutside '\'' := isOutside_of (by decide) (by decide) (by decide)
  have hblank : IsOutside ' ' := isOutside_of (by decide) (by decide) (by decide)
  have hlead : ("Cannot create class '" : Text) = ("Cannot create class " : Text) ++ ['\''] := by decide
  have hcolon : ("': " : Text) = '\'' :: ((":" : Text) ++ [' ']) := by decide
  have hpattern : cannotCreate.pattern = ("Cannot create class " : Text) ++ '\'' ::
      (place 0 ++ '\'' :: ((":" : Text) ++ ' ' :: place 1)) := by
    decide
  rw [hpattern, fillOnce_append_cons hmark, fillOnce_append_cons hmark, fillOnce_append_cons hblank,
    fillOnce_place, fillOnce_place, fillOnce_eq_self (by decide), fillOnce_eq_self (by decide), hlead,
    hcolon, List.append_assoc, List.singleton_append, List.cons_append, List.append_assoc,
    List.singleton_append]

/-- Number of the places of a message. -/
def places (m : Message) : Nat := m.pattern.count '\x7b'

/-- No argument that has a place in the message is changed by a later one. -/
def IsSettled (m : Message) (args : List Text) : Prop :=
  ∀ k < m.places, (settled 0 args)[k]? = args[k]?

theorem fillOnce_congr {m : Message} {args args' : List Text}
    (h : ∀ k < m.places, args'[k]? = args[k]?) :
    fillOnce args' m.pattern = fillOnce args m.pattern := by
  cases m with
  | createClass => rw [fillOnce_createClass, fillOnce_createClass, h 0 (by decide)]
  | cannotCreate =>
    rw [fillOnce_cannotCreate, fillOnce_cannotCreate, h 0 (by decide), h 1 (by decide)]
  | family | noClass | cannotCreateTitle =>
    rw [fillOnce_eq_self (by decide), fillOnce_eq_self (by decide)]

/-- The arguments can be read off a message, where the last one is as it was. -/
theorem of_fillOnce_eq {m : Message} {args args' : List Text} (hlength : args'.length = args.length)
    (hlast : args'[1]? = args[1]?) (h : fillOnce args' m.pattern = fillOnce args m.pattern) :
    ∀ k < m.places, args'[k]? = args[k]? := by
  have hfirst : ∀ p q : Text, p ++ (args'[0]?.getD (place 0) ++ q) =
      p ++ (args[0]?.getD (place 0) ++ q) → args'[0]? = args[0]? := by
    intro p q hpq
    have := List.append_cancel_right (List.append_cancel_left hpq)
    cases args' with
    | nil => rw [List.length_eq_zero_iff.1 hlength.symm]
    | cons a' args' =>
      cases args with
      | nil => cases hlength
      | cons a args => exact congrArg some this
  cases m with
  | createClass =>
    rw [fillOnce_createClass, fillOnce_createClass] at h
    intro k hk
    obtain rfl : k = 0 := Nat.lt_one_iff.1 hk
    exact hfirst _ _ h
  | cannotCreate =>
    rw [fillOnce_cannotCreate, fillOnce_cannotCreate, hlast] at h
    intro k hk
    match k, hk with
    | 0, _ => exact hfirst _ _ h
    | 1, _ => exact hlast
  | family | noClass | cannotCreateTitle => exact fun k hk => absurd hk (Nat.not_lt_zero k)

theorem settled_last {args : List Text} (h : args.length ≤ 2) :
    (settled 0 args)[1]? = args[1]? := by
  match args, h with
  | [], _ | [_], _ | [_, _], _ => rfl

theorem cannotCreateText_eq_iff (name cause : Text) :
    cannotCreateText name cause = "Cannot create class '" ++ (name ++ ("': " ++ cause)) ↔
      contains name (place 1) = false ∨ cause = place 1 := by
  rw [cannotCreateText, render, (spaced_pattern cannotCreate).fill_eq, fillOnce_cannotCreate,
    ← replaceAll_eq_self_iff (place_ne_nil 1)]
  constructor
  · exact fun h => List.append_cancel_right (List.append_cancel_left h)
  · intro h
    exact congrArg (fun t => "Cannot create class '" ++ (t ++ ("': " ++ cause))) h

/-- A message is its pattern with all arguments put in at once, each as later ones have changed it;
with the arguments as they are, if and, for up to two of them, only if none is changed. -/
theorem render_filled (m : Message) (args : List Text) (name cause : Text) :
    (ofKey? m.key = some m ∧
      m.render args = fillOnce (settled 0 args) m.pattern ∧
      (m.IsSettled args → m.render args = fillOnce args m.pattern) ∧
      (args.length ≤ 2 → m.render args = fillOnce args m.pattern → m.IsSettled args)) ∧
    (cannotCreateText name cause = "Cannot create class '" ++ (name ++ ("': " ++ cause)) ↔
      contains name (place 1) = false ∨ cause = place 1) := by
  refine ⟨?_, cannotCreateText_eq_iff name cause⟩
  have hfill : m.render args = fillOnce (settled 0 args) m.pattern := (spaced_pattern m).fill_eq args
  refine ⟨by cases m <;> decide, hfill, fun h => hfill.trans (fillOnce_congr h), fun hle h => ?_⟩
  exact of_fillOnce_eq (length_settled 0 args) (settled_last hle) (hfill.symm.trans h)

/-- Places in the last argument and in a name that no later argument fills stay. -/
theorem render_filled_literal :
    cannotCreate.IsSettled ["\x7b0\x7d", "\x7b1\x7d stays"] ∧
    cannotCreate.render ["\x7b0\x7d", "\x7b1\x7d stays"] =
      "Cannot create class '\x7b0\x7d': \x7b1\x7d stays" := by
  have h : cannotCreate.IsSettled ["\x7b0\x7d", "\x7b1\x7d stays"] := by
    have hname : fill 1 ["\x7b1\x7d stays"] "\x7b0\x7d" = "\x7b0\x7d" :=
      (replaceAll_eq_self_iff (place_ne_nil 1)).2 (.inl (by decide))
    intro k hk
    match k, hk with
    | 0, _ => exact congrArg some hname
    | 1, _ => rfl
  exact ⟨h, ((render_filled cannotCreate _ [] []).1.2.2.1 h).trans (fillOnce_cannotCreate _)⟩

/-- A name with the place of the cause in it gets the cause. -/
theorem cannotCreateText_filled :
    cannotCreateText "\x7b1\x7d" "x" ≠ "Cannot create class '\x7b1\x7d': x" := by
  intro h
  rcases (cannotCreateText_eq_iff _ _).1 h with h | h <;> revert h <;> decide

end Fix.Message

end QuickFix
