import Mathlib.Data.List.Forall2
import Mathlib.Data.List.TakeWhile
import Mathlib.Tactic.SplitIfs
import PageSvg.Operator.Shape

/-!
# What a shape accepts

In a shape that is in order, only the last parameter may take all operands that are left. Such a
shape accepts operands exactly if they fit it (`exists_accept_iff`): their number is right, each
converts for the parameter at its place, and numbers are left where numbers are asked for. It makes
one argument for each parameter, which the accessor of the parameter reads as what it is, so that no
accessor falls back to its neutral value (`reads_of_accept`).
-/

namespace PageSvg

variable {α : Type}

namespace Shape

/-- Only the last parameter may take all operands that are left. -/
def InOrder (shape : Shape) : Prop := ∀ p ∈ shape.dropLast, p.isRest = false

instance (shape : Shape) : Decidable shape.InOrder :=
  inferInstanceAs (Decidable (∀ p ∈ shape.dropLast, p.isRest = false))

/-- The operands fit the shape. -/
structure Fits [Scalar α] (shape : Shape) (operands : List (Operand α)) : Prop where
  count : if shape.isVariadic then shape.fixedCount ≤ operands.length
    else operands.length = shape.fixedCount
  converts : ∀ (i : Nat) (p : Parameter) (o : Operand α), shape[i]? = some p → p.isRest = false →
    operands[i]? = some o → (p.convert o).isSome
  numbers : .restNumbers ∈ shape → ∀ o ∈ operands.drop shape.fixedCount, o.isNumber

/-- All parameters of a shape in order take one operand each, except perhaps the last. -/
theorem InOrder.cases {shape : Shape} (h : shape.InOrder) :
    (∀ p ∈ shape, p.isRest = false) ∨
      ∃ init tail, shape = init ++ [tail] ∧ (∀ p ∈ init, p.isRest = false) ∧ tail.isRest = true := by
  rcases List.eq_nil_or_concat' shape with rfl | ⟨init, tail, rfl⟩
  · exact .inl (by simp)
  · have hinit : ∀ p ∈ init, p.isRest = false := by
      intro p hp
      exact h p (by rwa [List.dropLast_concat])
    cases htail : tail.isRest with
    | true => exact .inr ⟨init, tail, rfl, hinit, htail⟩
    | false =>
      refine .inl fun p hp => ?_
      rcases List.mem_append.1 hp with hp | hp
      · exact hinit p hp
      · rwa [List.mem_singleton.1 hp]

section Parts

variable {shape init : Shape} {tail : Parameter} (h : ∀ p ∈ shape, p.isRest = false)
  (hinit : ∀ p ∈ init, p.isRest = false) (htail : tail.isRest = true)

include h

theorem fixed_of_fixed : shape.fixed = shape :=
  List.takeWhile_eq_self_iff.2 fun p hp => by simp [h p hp]

theorem tail?_of_fixed : shape.tail? = none :=
  List.find?_eq_none.2 fun p hp => by simp [h p hp]

theorem fixedCount_of_fixed : shape.fixedCount = shape.length :=
  List.countP_eq_length.2 fun p hp => by simp [h p hp]

theorem isVariadic_of_fixed : shape.isVariadic = false := by
  unfold isVariadic
  cases hlast : shape.getLast? with
  | none => rfl
  | some p => simpa using h p (List.mem_of_getLast? hlast)

omit h
include hinit htail

theorem fixed_of_tail : fixed (init ++ [tail]) = init := by
  unfold fixed
  rw [List.takeWhile_append_of_pos fun p hp => by simp [hinit p hp]]
  simp [htail]

theorem tail?_of_tail : tail? (init ++ [tail]) = some tail := by
  unfold tail?
  rw [List.find?_append, List.find?_eq_none.2 fun p hp => by simp [hinit p hp]]
  simp [htail]

theorem fixedCount_of_tail : fixedCount (init ++ [tail]) = init.length := by
  have hcount : fixedCount init = init.length := fixedCount_of_fixed hinit
  unfold fixedCount at hcount ⊢
  rw [List.countP_append, hcount]
  simp [htail]

omit hinit in
theorem isVariadic_of_tail : isVariadic (init ++ [tail]) = true := by
  simp [isVariadic, htail]

end Parts

end Shape

/-! ### Arguments -/

/-- The argument that a parameter makes of the operands from its place on. -/
def Parameter.argument? [Scalar α] (p : Parameter) (operands : List (Operand α)) :
    Option (Argument α) :=
  if p.isRest then some (.rest operands) else operands.head?.bind p.convert

/-- The accessor of a parameter reads what the argument holds, which is of the parameter's kind. -/
inductive Arguments.Reads [Scalar α] (args : Arguments α) (i : Nat) :
    Parameter → Argument α → Prop
  | number {x : α} (h : args.number i = x) : Reads args i .number (.number x)
  | integer {n : Int64} (h : args.integer i = n) : Reads args i .integer (.integer n)
  | string {bytes : List UInt8} (h : args.bytes i = bytes) : Reads args i .string (.string bytes)
  | name {text : String} (h : args.name i = text) : Reads args i .name (.name text)
  | array {items : List (Operand α)} (h : args.items i = items) : Reads args i .array (.array items)
  | dictionary {o : Operand α} (h : args.operand? i = some o) :
      Reads args i .dictionary (.dictionary o)
  | any {o : Operand α} (h : args.operand? i = some o) : Reads args i .any (.any o)
  | restNumbers {items : List (Operand α)} {xs : List α}
      (hnumbers : items.map Operand.number? = xs.map some) (h : args.numbers i = xs) :
      Reads args i .restNumbers (.rest items)
  | rest {items : List (Operand α)} (h : args.items i = items) : Reads args i .rest (.rest items)

section Arguments

variable [Scalar α] {args : Arguments α} {i : Nat} {p : Parameter} {a : Argument α}

/-- A converted operand is of the kind of its parameter. -/
theorem Arguments.reads_of_convert {o : Operand α} (h : p.convert o = some a)
    (ha : args[i]? = some a) : args.Reads i p a := by
  cases p with
  | number =>
    cases o with
    | integer _ | real _ =>
      cases h
      exact .number (by rw [Arguments.number, ha])
    | _ => cases h
  | integer =>
    cases o with
    | integer _ =>
      cases h
      exact .integer (by rw [Arguments.integer, ha])
    | real x =>
      simp only [Parameter.convert] at h
      split_ifs at h
      cases h
      exact .integer (by rw [Arguments.integer, ha])
    | _ => cases h
  | string =>
    cases o with
    | integer _ | real _ | string _ | name _ =>
      cases h
      exact .string (by rw [Arguments.bytes, ha])
    | _ => cases h
  | name =>
    cases o with
    | string _ | name _ =>
      cases h
      exact .name (by rw [Arguments.name, ha])
    | _ => cases h
  | array =>
    cases o with
    | integer _ | real _ | array _ =>
      cases h
      exact .array (by rw [Arguments.items, ha])
    | _ => cases h
  | dictionary =>
    cases o with
    | dictionary _ =>
      cases h
      exact .dictionary (by rw [Arguments.operand?, ha])
    | _ => cases h
  | any =>
    cases h
    exact .any (by rw [Arguments.operand?, ha])
  | restNumbers => cases h
  | rest => cases h

theorem map_number?_of_isNumber {left : List (Operand α)} (h : ∀ o ∈ left, o.isNumber) :
    left.map Operand.number? = (left.filterMap Operand.number?).map some := by
  induction left with
  | nil => rfl
  | cons o left ih =>
    obtain ⟨ho, hleft⟩ := List.forall_mem_cons.1 h
    obtain ⟨x, hx⟩ : ∃ x, o.number? = some x := by
      cases o with
      | integer _ | real _ => exact ⟨_, rfl⟩
      | _ => cases ho
    simp [hx, ih hleft]

/-- All operands that are left are read as one argument, and as numbers if they all are. -/
theorem Arguments.reads_rest {left : List (Operand α)} (hp : p.isRest = true)
    (hnumbers : p = .restNumbers → ∀ o ∈ left, o.isNumber) (ha : args[i]? = some (.rest left)) :
    args.Reads i p (.rest left) := by
  have hitems : args.items i = left := by rw [Arguments.items, ha]
  cases p with
  | rest => exact .rest hitems
  | restNumbers =>
    have hmap := map_number?_of_isNumber (hnumbers rfl)
    exact .restNumbers hmap (by rw [Arguments.numbers, hitems])
  | _ => cases hp

end Arguments

/-! ### Conversion -/

section Conversion

variable [Scalar α]

theorem exists_convertEach_iff {ps : Shape} {os : List (Operand α)} (h : ps.length ≤ os.length) :
    (∃ args, convertEach ps os = some args) ↔
      ∀ (i : Nat) (p : Parameter) (o : Operand α), ps[i]? = some p → os[i]? = some o →
        (p.convert o).isSome := by
  induction ps generalizing os with
  | nil => simp [convertEach]
  | cons p ps ih =>
    obtain _ | ⟨o, os⟩ := os
    · simp at h
    have hlength : ps.length ≤ os.length := by simpa using h
    have hrest := ih hlength
    constructor
    · rintro ⟨args, hargs⟩ i q r hq hr
      simp only [convertEach, Option.bind_eq_bind, Option.bind_eq_some_iff] at hargs
      obtain ⟨a, ha, as, has, -⟩ := hargs
      cases i with
      | zero =>
        cases hq
        cases hr
        rw [ha]
        rfl
      | succ i => exact hrest.1 ⟨as, has⟩ i q r hq hr
    · intro hall
      obtain ⟨a, ha⟩ := Option.isSome_iff_exists.1 (hall 0 p o rfl rfl)
      obtain ⟨as, has⟩ := hrest.2 fun i => hall (i + 1)
      exact ⟨a :: as, by simp [convertEach, ha, has]⟩

/-- One argument for each parameter, made of the operand at its place. -/
theorem getElem?_convertEach {ps : Shape} {os : List (Operand α)} {args : Arguments α}
    (hargs : convertEach ps os = some args) (h : ps.length ≤ os.length) :
    args.length = ps.length ∧ ∀ (i : Nat) (p : Parameter), ps[i]? = some p →
      ∃ a, (os.drop i).head?.bind p.convert = some a ∧ args[i]? = some a := by
  induction ps generalizing os args with
  | nil =>
    cases hargs
    exact ⟨rfl, by simp⟩
  | cons p ps ih =>
    obtain _ | ⟨o, os⟩ := os
    · simp at h
    simp only [convertEach, Option.bind_eq_bind, Option.bind_eq_some_iff] at hargs
    obtain ⟨a, ha, as, has, hcons⟩ := hargs
    cases hcons
    obtain ⟨hlen, hplaces⟩ := ih has (by simpa using h)
    refine ⟨by simp [hlen], fun i q hq => ?_⟩
    cases i with
    | zero =>
      cases hq
      exact ⟨a, ha, rfl⟩
    | succ i => exact hplaces i q hq

end Conversion

/-! ### Acceptance -/

namespace Shape

section Acceptance

variable [Scalar α] {shape init : Shape} {tail : Parameter} {operands : List (Operand α)}
  {args : Arguments α}

theorem accept_of_fixed (h : ∀ p ∈ shape, p.isRest = false) :
    shape.accept operands =
      if operands.length = shape.length then convertEach shape operands else none := by
  unfold accept
  rw [fixed_of_fixed h, tail?_of_fixed h]

theorem accept_of_tail (hinit : ∀ p ∈ init, p.isRest = false) (htail : tail.isRest = true) :
    accept (init ++ [tail]) operands = some args ↔
      init.length ≤ operands.length ∧
      (tail = .restNumbers → ∀ o ∈ operands.drop init.length, o.isNumber) ∧
      ∃ converted, convertEach init operands = some converted ∧
        args = converted ++ [.rest (operands.drop init.length)] := by
  unfold accept
  rw [fixed_of_tail hinit htail, tail?_of_tail hinit htail]
  have hguard : (decide (tail = .restNumbers) &&
      !(operands.drop init.length).all Operand.isNumber) = true ↔
      ¬(tail = .restNumbers → ∀ o ∈ operands.drop init.length, o.isNumber) := by simp
  by_cases hcount : init.length ≤ operands.length
  · dsimp only
    rw [if_neg (Nat.not_lt.2 hcount), Option.bind_eq_bind, Option.bind_eq_some_iff]
    constructor
    · rintro ⟨converted, hconverted, h⟩
      split_ifs at h with hbad
      · cases h
      · cases h
        exact ⟨hcount, Classical.not_not.1 fun h => hbad (hguard.2 h), converted, hconverted, rfl⟩
    · rintro ⟨-, hnumbers, converted, hconverted, rfl⟩
      refine ⟨converted, hconverted, ?_⟩
      rw [if_neg fun h => hguard.1 h hnumbers]
      rfl
  · simp [hcount]

/-- **A shape in order accepts exactly the operands that fit it.** -/
theorem exists_accept_iff (h : shape.InOrder) :
    (∃ args, shape.accept operands = some args) ↔ shape.Fits operands := by
  rcases h.cases with hfixed | ⟨init, tail, rfl, hinit, htail⟩
  · have hvariadic := isVariadic_of_fixed hfixed
    have hfixedCount := fixedCount_of_fixed hfixed
    rw [accept_of_fixed hfixed]
    constructor
    · rintro ⟨args, hargs⟩
      split_ifs at hargs with hcount
      have hconverts := (exists_convertEach_iff hcount.ge).1 ⟨args, hargs⟩
      exact ⟨by simp [hvariadic, hfixedCount, hcount], fun i p o hp _ ho => hconverts i p o hp ho,
        fun hrest => absurd (hfixed _ hrest) (by decide)⟩
    · intro hfits
      have hcount : operands.length = shape.length := by
        simpa [hvariadic, hfixedCount] using hfits.count
      rw [if_pos hcount]
      exact (exists_convertEach_iff hcount.ge).2 fun i p o hp ho =>
        hfits.converts i p o hp (hfixed p (List.mem_of_getElem? hp)) ho
  · have hvariadic : isVariadic (init ++ [tail]) = true := isVariadic_of_tail htail
    have hfixedCount := fixedCount_of_tail hinit htail
    have hplace {i : Nat} {p : Parameter} (hp : (init ++ [tail])[i]? = some p) :
        p.isRest = false ↔ init[i]? = some p := by
      rcases Nat.lt_or_ge i init.length with hi | hi
      · rw [List.getElem?_append_left hi] at hp
        simp [hp, hinit p (List.mem_of_getElem? hp)]
      · rw [List.getElem?_append_right hi] at hp
        obtain rfl : p = tail := List.mem_singleton.1 (List.mem_of_getElem? hp)
        simp [htail, List.getElem?_eq_none hi]
    simp only [accept_of_tail hinit htail]
    constructor
    · rintro ⟨args, hcount, hnumbers, converted, hconverted, -⟩
      have hconverts := (exists_convertEach_iff hcount).1 ⟨converted, hconverted⟩
      refine ⟨by simpa [hvariadic, hfixedCount], fun i p o hp hrest ho => ?_, fun hmem => ?_⟩
      · exact hconverts i p o ((hplace hp).1 hrest) ho
      · rw [hfixedCount]
        refine hnumbers ?_
        rcases List.mem_append.1 hmem with hmem | hmem
        · exact absurd (hinit _ hmem) (by decide)
        · exact (List.mem_singleton.1 hmem).symm
    · intro hfits
      have hcount : init.length ≤ operands.length := by
        simpa [hvariadic, hfixedCount] using hfits.count
      obtain ⟨converted, hconverted⟩ := (exists_convertEach_iff hcount).2
        fun i p o hp ho => hfits.converts i p o
          (by rw [List.getElem?_append_left (List.getElem?_eq_some_iff.1 hp).1, hp])
          (hinit p (List.mem_of_getElem? hp)) ho
      refine ⟨_, hcount, fun htail => ?_, converted, hconverted, rfl⟩
      rw [← hfixedCount]
      exact hfits.numbers (by simp [htail])

/-- **A shape in order makes one argument for each parameter**, which the accessor of the parameter
reads. -/
theorem reads_of_accept (h : shape.InOrder) (hargs : shape.accept operands = some args) :
    args.length = shape.length ∧ ∀ (i : Nat) (p : Parameter), shape[i]? = some p →
      ∃ a, p.argument? (operands.drop i) = some a ∧ args.Reads i p a := by
  have hfixedPlace {i : Nat} {p : Parameter} {args : Arguments α} {a : Argument α}
      (hp : p.isRest = false) (ha : (operands.drop i).head?.bind p.convert = some a)
      (hplace : args[i]? = some a) :
      ∃ a, p.argument? (operands.drop i) = some a ∧ args.Reads i p a := by
    obtain ⟨o, -, ho⟩ := Option.bind_eq_some_iff.1 ha
    refine ⟨a, ?_, Arguments.reads_of_convert ho hplace⟩
    rw [Parameter.argument?, if_neg (by simp [hp]), ha]
  rcases h.cases with hfixed | ⟨init, tail, rfl, hinit, htail⟩
  · rw [accept_of_fixed hfixed] at hargs
    split_ifs at hargs with hcount
    obtain ⟨hlen, hplaces⟩ := getElem?_convertEach hargs hcount.ge
    refine ⟨hlen, fun i p hp => ?_⟩
    obtain ⟨a, ha, hplace⟩ := hplaces i p hp
    exact hfixedPlace (hfixed p (List.mem_of_getElem? hp)) ha hplace
  · obtain ⟨hcount, hnumbers, converted, hconverted, rfl⟩ := (accept_of_tail hinit htail).1 hargs
    obtain ⟨hlen, hplaces⟩ := getElem?_convertEach hconverted hcount
    refine ⟨by simp [hlen], fun i p hp => ?_⟩
    rcases Nat.lt_or_ge i init.length with hi | hi
    · rw [List.getElem?_append_left hi] at hp
      obtain ⟨a, ha, hplace⟩ := hplaces i p hp
      refine hfixedPlace (hinit p (List.mem_of_getElem? hp)) ha ?_
      rw [List.getElem?_append_left (by omega), hplace]
    · -- The last place holds all operands that are left.
      obtain ⟨rfl, rfl⟩ : i = init.length ∧ tail = p := by
        rw [List.getElem?_append_right hi, List.getElem?_singleton] at hp
        split_ifs at hp with hzero
        exact ⟨by omega, Option.some.inj hp⟩
      refine ⟨.rest (operands.drop init.length), ?_, Arguments.reads_rest htail hnumbers ?_⟩
      · rw [Parameter.argument?, if_pos htail]
      · rw [List.getElem?_append_right hlen.le, hlen, Nat.sub_self]
        rfl

end Acceptance

end Shape

end PageSvg
