/-
LiveProbe/PythonRedaction.lean

What the events of the Python agent show of redacted values, by comparing two
hits that differ below redacted keys only.

The traversal replaces the value of a redacted key unseen, and an expression
fails at a redacted name, so neither tells the hits apart.  A dot path is checked
at its last segment alone: `password.hash` leads through the redacted key and is
serialized.  Such a path shows that the hits differ, whatever else the probe
names (`two_hits_alike`).
-/
import LiveProbe.ConditionAgreement
import LiveProbe.PythonRuntime

open JsString

namespace PythonAgent

/-! ### Trees that differ below redacted keys -/

mutual

/-- Two trees are equal, except for the values of redacted keys. -/
inductive LowEq (redacts : JsString → Bool) : Json → Json → Prop
  | null : LowEq redacts .null .null
  | bool (b : Bool) : LowEq redacts (.bool b) (.bool b)
  | num (q : ℚ) : LowEq redacts (.num q) (.num q)
  | str (s : JsString) : LowEq redacts (.str s) (.str s)
  | arr {items items' : List Json} (h : LowItems redacts items items') :
      LowEq redacts (.arr items) (.arr items')
  | obj {members members' : List (JsString × Json)} (h : LowMembers redacts members members') :
      LowEq redacts (.obj members) (.obj members')

inductive LowItems (redacts : JsString → Bool) : List Json → List Json → Prop
  | nil : LowItems redacts [] []
  | cons {v v' : Json} {items items' : List Json} (h : LowEq redacts v v')
      (t : LowItems redacts items items') : LowItems redacts (v :: items) (v' :: items')

inductive LowMembers (redacts : JsString → Bool) :
    List (JsString × Json) → List (JsString × Json) → Prop
  | nil : LowMembers redacts [] []
  | hidden {key : JsString} {v v' : Json} {members members' : List (JsString × Json)}
      (h : redacts key = true) (t : LowMembers redacts members members') :
      LowMembers redacts ((key, v) :: members) ((key, v') :: members')
  | shown {key : JsString} {v v' : Json} {members members' : List (JsString × Json)}
      (h : LowEq redacts v v') (t : LowMembers redacts members members') :
      LowMembers redacts ((key, v) :: members) ((key, v') :: members')

end

/-- Values of one type; an attribute of such a value belongs to its type. -/
inductive SameType : PyValue → PyValue → Prop
  | none : SameType .none .none
  | bool (a b : Bool) : SameType (.bool a) (.bool b)
  | int (m n : ℤ) : SameType (.number (.int m)) (.number (.int n))
  | float (a b : Binary64.Double) : SameType (.number (.float a)) (.number (.float b))
  | str (s t : PyString) : SameType (.str s) (.str t)
  | list (l l' : List Json) : SameType (.list l) (.list l')
  | dict (m m' : List (JsString × Json)) : SameType (.dict m) (.dict m')

section

variable {Other : Type} (runtime : Runtime Other) (config : SerializerLimits)

/-- The configuration redacts a key of a captured tree. -/
def redacts (key : JsString) : Bool :=
  redactsKey runtime.unicode config.toSerializerConfig (codePoints key)

/-- Two objects that a traversal cannot tell apart. -/
inductive LowObject : PyObject Other → PyObject Other → Prop
  | same (x : PyObject Other) : LowObject x x
  | low {v v' : Json} (h : LowEq (redacts runtime config) v v') :
      LowObject (.value (.ofJson v)) (.value (.ofJson v'))

/-- Two members that a traversal cannot tell apart. -/
def LowMember (m m' : Option PyString × PyObject Other) : Prop :=
  m.1 = m'.1 ∧ (m.1.any (redactsKey runtime.unicode config.toSerializerConfig) = true ∨
    LowObject runtime config m.2 m'.2)

inductive LowShape : Shape (PyObject Other) → Shape (PyObject Other) → Prop
  | leaf {s : Shape (PyObject Other)} (hs : ∀ items, s ≠ .sequence items)
      (hr : ∀ members, s ≠ .record members) : LowShape s s
  | sequence {items items' : List (PyObject Other)}
      (h : List.Forall₂ (LowObject runtime config) items items') :
      LowShape (.sequence items) (.sequence items')
  | record {members members' : List (Option PyString × PyObject Other)}
      (h : List.Forall₂ (LowMember runtime config) members members') :
      LowShape (.record members) (.record members')

variable {runtime config}

theorem LowItems.objects {items items' : List Json}
    (h : LowItems (redacts runtime config) items items') :
    List.Forall₂ (LowObject runtime config) (items.map fun item => .value (.ofJson item))
      (items'.map fun item => .value (.ofJson item)) := by
  induction items generalizing items' with
  | nil =>
    cases h
    exact .nil
  | cons v items ih =>
    cases h with
    | cons h t => exact .cons (.low h) (ih t)

theorem LowMembers.objects {members members' : List (JsString × Json)}
    (h : LowMembers (redacts runtime config) members members') :
    List.Forall₂ (LowMember runtime config)
      (members.map fun m => (some (codePoints m.1), .value (.ofJson m.2)))
      (members'.map fun m => (some (codePoints m.1), .value (.ofJson m.2))) := by
  induction members generalizing members' with
  | nil =>
    cases h
    exact .nil
  | cons m members ih =>
    cases h with
    | hidden h t => exact .cons ⟨rfl, Or.inl h⟩ (ih t)
    | shown h t => exact .cons ⟨rfl, Or.inr (.low h)⟩ (ih t)

theorem LowShape.refl (s : Shape (PyObject Other)) : LowShape runtime config s s := by
  cases s with
  | sequence items => exact .sequence (List.forall₂_same.mpr fun x _ => .same x)
  | record members => exact .record (List.forall₂_same.mpr fun m _ => ⟨rfl, Or.inr (.same m.2)⟩)
  | none | bool | number | str | function | unsupported =>
    exact .leaf (fun _ h => nomatch h) (fun _ h => nomatch h)

theorem LowObject.view {x y : PyObject Other} (h : LowObject runtime config x y) :
    LowShape runtime config (runtime.heap.view x) (runtime.heap.view y) := by
  cases h with
  | same => exact .refl _
  | low h =>
    cases h with
    | null | bool | num | str => exact .refl _
    | arr h => exact .sequence h.objects
    | obj h => exact .record h.objects

/-- Only objects that were not captured are ever the same. -/
theorem LowObject.heap_same {x y a b : PyObject Other} (h : LowObject runtime config x y)
    (hab : LowObject runtime config a b) : runtime.heap.same x a = runtime.heap.same y b := by
  cases h with
  | low => rfl
  | same x =>
    cases hab with
    | same => rfl
    | low => cases x <;> rfl

theorem any_same {x y : PyObject Other} {ancestors ancestors' : List (PyObject Other)}
    (h : LowObject runtime config x y)
    (hancestors : List.Forall₂ (LowObject runtime config) ancestors ancestors') :
    ancestors.any (runtime.heap.same x) = ancestors'.any (runtime.heap.same y) := by
  induction hancestors with
  | nil => rfl
  | cons hab _ ih => rw [List.any_cons, List.any_cons, h.heap_same hab, ih]

/-! ### Traversals -/

/-- The members a traversal keeps, when it cannot tell the values apart. -/
theorem filterMap_low {members members' : List (Option PyString × PyObject Other)}
    {f g : PyObject Other → Sanitized} (h : List.Forall₂ (LowMember runtime config) members members')
    (hfg : ∀ x y, LowObject runtime config x y → f x = g y) :
    (members.filterMap fun member => member.1.map fun key =>
        (key, if redactsKey runtime.unicode config.toSerializerConfig key then .redacted
          else f member.2))
      = members'.filterMap fun member => member.1.map fun key =>
        (key, if redactsKey runtime.unicode config.toSerializerConfig key then .redacted
          else g member.2) := by
  induction h with
  | nil => rfl
  | @cons m m' members members' hm _ ih =>
    obtain ⟨key, x⟩ := m
    obtain ⟨key', y⟩ := m'
    obtain ⟨rfl, hvalue⟩ : key = key' ∧ _ := hm
    cases key with
    | none =>
      simp only [List.filterMap_cons, Option.map_none]
      exact ih
    | some key =>
      simp only [List.filterMap_cons, Option.map_some]
      rw [ih]
      rcases hvalue with hkey | hxy
      · have hkey' : redactsKey runtime.unicode config.toSerializerConfig key = true := hkey
        simp only [hkey', if_true]
      · rw [hfg x y hxy]

theorem any_isNone_low {members members' : List (Option PyString × PyObject Other)}
    (h : List.Forall₂ (LowMember runtime config) members members') :
    (members.any fun member => member.1.isNone) = members'.any fun member => member.1.isNone := by
  induction h with
  | nil => rfl
  | cons hm _ ih => rw [List.any_cons, List.any_cons, hm.1, ih]

theorem visit_low (levels : ℕ) : ∀ {ancestors ancestors' : List (PyObject Other)}
    {x y : PyObject Other}, List.Forall₂ (LowObject runtime config) ancestors ancestors' →
      LowObject runtime config x y →
        visit runtime.unicode runtime.heap config levels ancestors x
          = visit runtime.unicode runtime.heap config levels ancestors' y := by
  induction levels with
  | zero =>
    intro ancestors ancestors' x y _ h
    have hview := h.view
    unfold visit
    generalize runtime.heap.view x = s at hview
    generalize runtime.heap.view y = s' at hview
    cases hview <;> rfl
  | succ levels ih =>
    intro ancestors ancestors' x y hancestors h
    have hview := h.view
    have hany := any_same h hancestors
    have hvisit : ∀ a b, LowObject runtime config a b →
        visit runtime.unicode runtime.heap config levels (x :: ancestors) a
          = visit runtime.unicode runtime.heap config levels (y :: ancestors') b :=
      fun a b hab => ih (.cons h hancestors) hab
    unfold visit
    generalize runtime.heap.view x = s at hview
    generalize runtime.heap.view y = s' at hview
    cases hview with
    | @leaf s hs hr =>
      cases s with
      | sequence items => exact absurd rfl (hs items)
      | record members => exact absurd rfl (hr members)
      | none | bool | number | str | function | unsupported => rfl
    | @sequence items items' hitems =>
      have hmap : List.Forall₂ Eq
          ((items.take config.maxArray).map (visit runtime.unicode runtime.heap config levels
            (x :: ancestors)))
          ((items'.take config.maxArray).map (visit runtime.unicode runtime.heap config levels
            (y :: ancestors'))) :=
        List.rel_map hvisit (List.forall₂_take _ hitems)
      rw [List.forall₂_eq_eq_eq] at hmap
      dsimp only
      rw [hany, hmap, hitems.length_eq]
    | @record members members' hmembers =>
      have htake := List.forall₂_take config.maxProps hmembers
      dsimp only
      rw [hany, filterMap_low htake hvisit, any_isNone_low htake, hmembers.length_eq]

/-- Whatever a traversal starts from. -/
theorem serializeObject_low {x y : PyObject Other} (h : LowObject runtime config x y)
    (rootKey : Option PyString) :
    serializeObject runtime config x rootKey = serializeObject runtime config y rootKey := by
  unfold serializeObject serialize
  rw [visit_low _ .nil h]

/-! ### Paths -/

theorem LowItems.length_eq {redacts : JsString → Bool} {items items' : List Json}
    (h : LowItems redacts items items') : items.length = items'.length := by
  induction items generalizing items' with
  | nil =>
    cases h
    rfl
  | cons v items ih =>
    cases h with
    | cons h t => rw [List.length_cons, List.length_cons, ih t]

theorem LowItems.get {redacts : JsString → Bool} {items items' : List Json}
    (h : LowItems redacts items items') (i : ℕ) : Option.Rel (LowEq redacts) items[i]? items'[i]? := by
  induction items generalizing items' i with
  | nil =>
    cases h
    exact .none
  | cons v items ih =>
    cases h with
    | cons h t =>
      cases i with
      | zero => exact .some h
      | succ i => exact ih t i

/-- A key that is not redacted leads to values that cannot be told apart. -/
theorem LowMembers.find {members members' : List (JsString × Json)}
    (h : LowMembers (redacts runtime config) members members') {key : PyString}
    (hkey : redactsKey runtime.unicode config.toSerializerConfig key = false) :
    Option.Rel (LowEq (redacts runtime config))
      ((members.find? fun m => codePoints m.1 = key).map Prod.snd)
      ((members'.find? fun m => codePoints m.1 = key).map Prod.snd) := by
  induction members generalizing members' with
  | nil =>
    cases h
    exact .none
  | cons m members ih =>
    cases h with
    | @hidden k v v' _ members' hredacts t =>
      have hne : codePoints k ≠ key := by
        rintro rfl
        exact Bool.noConfusion (hredacts.symm.trans hkey)
      rw [List.find?_cons_of_neg (by simpa using hne), List.find?_cons_of_neg (by simpa using hne)]
      exact ih t
    | @shown k v v' _ members' h t =>
      by_cases heq : codePoints k = key
      · rw [List.find?_cons_of_pos (by simpa using heq), List.find?_cons_of_pos (by simpa using heq)]
        exact .some h
      · rw [List.find?_cons_of_neg (by simpa using heq), List.find?_cons_of_neg (by simpa using heq)]
        exact ih t

/-- Both objects have the same keys. -/
theorem LowMembers.find_eq_none {redacts : JsString → Bool} {members members' : List (JsString × Json)}
    (h : LowMembers redacts members members') {key : PyString}
    (hnone : members.find? (fun m => codePoints m.1 = key) = none) :
    members'.find? (fun m => codePoints m.1 = key) = none := by
  induction members generalizing members' with
  | nil =>
    cases h
    rfl
  | cons m members ih =>
    rw [List.find?_eq_none, List.forall_mem_cons] at hnone
    rw [List.find?_eq_none]
    have hrest := List.find?_eq_none.mpr hnone.2
    cases h with
    | hidden _ t | shown _ t =>
      exact List.forall_mem_cons.mpr ⟨hnone.1, List.find?_eq_none.mp (ih t hrest)⟩

/-- Results of a lookup that cannot be told apart. -/
abbrev LowFound (runtime : Runtime Other) (config : SerializerLimits) :
    Option (PyObject Other) → Option (PyObject Other) → Prop :=
  Option.Rel (LowObject runtime config)

theorem LowFound.refl (x : Option (PyObject Other)) : LowFound runtime config x x := by
  cases x with
  | none => exact .none
  | some x => exact .some (.same x)

/-- The attributes of a value are those of its type. -/
def TypeAttributes (runtime : Runtime Other) : Prop :=
  ∀ v w name, SameType v w → runtime.getattrStatic v name = runtime.getattrStatic w name

theorem dotStep_low (hattr : TypeAttributes runtime) {x y : PyObject Other}
    (h : LowObject runtime config x y) {segment : PyString}
    (hsegment : redactsKey runtime.unicode config.toSerializerConfig segment = false) :
    LowFound runtime config (dotStep runtime.toInterpreter x segment)
      (dotStep runtime.toInterpreter y segment) := by
  cases h with
  | same => exact .refl _
  | low h =>
    cases h with
    | null | bool | num | str => exact .refl _
    | @arr items items' h =>
      show LowFound runtime config
        (if isdecimal runtime.unicode segment then _ else runtime.getattrStatic (.list items) segment)
        (if isdecimal runtime.unicode segment then _ else runtime.getattrStatic (.list items') segment)
      by_cases hdecimal : isdecimal runtime.unicode segment
      · rw [if_pos hdecimal, if_pos hdecimal, h.length_eq]
        split
        · exact .none
        · have hget := h.get (toInt runtime.unicode segment)
          rcases hv : items[toInt runtime.unicode segment]? with - | v <;>
            rcases hv' : items'[toInt runtime.unicode segment]? with - | v' <;>
            rw [hv, hv'] at hget <;> cases hget
          · exact .none
          · next h => exact .some (.low h)
      · rw [if_neg hdecimal, if_neg hdecimal, hattr _ _ segment (.list items items')]
        exact .refl _
    | @obj members members' h =>
      have hfind := h.find hsegment
      show LowFound runtime config ((ownDictValue members segment).map .value)
        ((ownDictValue members' segment).map .value)
      unfold ownDictValue
      rcases hm : members.find? (fun m => codePoints m.1 = segment) with - | m <;>
        rcases hm' : members'.find? (fun m => codePoints m.1 = segment) with - | m' <;>
        rw [hm, hm'] at hfind ⊢ <;> cases hfind
      · exact .none
      · next h => exact .some (.low h)

/-- A path without redacted segments cannot tell two trees apart. -/
theorem foldlM_low (hattr : TypeAttributes runtime) {segments : List PyString}
    (hsegments : ∀ s ∈ segments, redactsKey runtime.unicode config.toSerializerConfig s = false)
    {x y : PyObject Other} (h : LowObject runtime config x y) :
    LowFound runtime config
      (segments.foldlM (fun current segment =>
        if segment = [] then none else dotStep runtime.toInterpreter current segment) x)
      (segments.foldlM (fun current segment =>
        if segment = [] then none else dotStep runtime.toInterpreter current segment) y) := by
  induction segments generalizing x y with
  | nil => exact .some h
  | cons segment segments ih =>
    rw [List.foldlM_cons, List.foldlM_cons]
    by_cases hempty : segment = []
    · rw [if_pos hempty, if_pos hempty]
      exact .none
    · rw [if_neg hempty, if_neg hempty]
      have hstep := dotStep_low hattr h (hsegments segment List.mem_cons_self)
      rcases hx : dotStep runtime.toInterpreter x segment with - | x' <;>
        rcases hy : dotStep runtime.toInterpreter y segment with - | y' <;>
        rw [hx, hy] at hstep <;> cases hstep
      · exact .none
      · next hlow => exact ih (fun s hs => hsegments s (List.mem_cons_of_mem _ hs)) hlow

/-! ### Expressions -/

/-- The value a segment leads to is not the one of a redacted key; an expression checks its names only. -/
def Opened (runtime : Runtime Other) (config : SerializerLimits) (current : PyValue) (segment : PySegment) : Prop :=
  ∀ members, current = .dict members → (follow runtime.unicode current segment).isSome = true →
    redactsKey runtime.unicode config.toSerializerConfig (segmentText segment) = false

/-- No segment that a path comes to leads to a redacted key. -/
def OpenAlong (runtime : Runtime Other) (config : SerializerLimits) : List PySegment → PyValue → Prop
  | [], _ => True
  | segment :: path, current =>
    redactsSegment runtime.unicode config.toSerializerConfig segment = false →
      Opened runtime config current segment ∧
        ∀ next, follow runtime.unicode current segment = some next → OpenAlong runtime config path next

/-- No path that is evaluated comes to a redacted key by an index. -/
def OpenIn (runtime : Runtime Other) (config : SerializerLimits) (root : PyValue) : PyNode → Prop
  | .literal _ => True
  | .reference path => OpenAlong runtime config path root
  | .unary _ operand => OpenIn runtime config root operand
  | .binary operator left right =>
    OpenIn runtime config root left ∧
      ∀ a, evaluate runtime.unicode config.toSerializerConfig root left = .ok a →
        match operator.decidedBy with
        | some decisive => a = .bool !decisive → OpenIn runtime config root right
        | none => OpenIn runtime config root right

/-- A value without the contents of a container. -/
def erase : PyValue → PyValue
  | .list _ => .list []
  | .dict _ => .dict []
  | value => value

/-- Two values that an expression cannot tell apart. -/
inductive LowValue (runtime : Runtime Other) (config : SerializerLimits) : PyValue → PyValue → Prop
  | same (v : PyValue) : LowValue runtime config v v
  | low {v v' : Json} (h : LowEq (redacts runtime config) v v') :
      LowValue runtime config (.ofJson v) (.ofJson v')

theorem LowValue.object {v w : PyValue} (h : LowValue runtime config v w) :
    LowObject runtime config (.value v) (.value w) := by
  cases h with
  | same => exact .same _
  | low h => exact .low h

theorem LowValue.erase {v w : PyValue} (h : LowValue runtime config v w) :
    PythonAgent.erase v = PythonAgent.erase w := by
  cases h with
  | same => rfl
  | low h => cases h <;> rfl

/-- Results of an expression that cannot be told apart. -/
inductive LowResult (runtime : Runtime Other) (config : SerializerLimits) :
    Except String PyValue → Except String PyValue → Prop
  | error (e : String) : LowResult runtime config (.error e) (.error e)
  | ok {v w : PyValue} (h : LowValue runtime config v w) :
      LowResult runtime config (.ok v) (.ok w)

theorem LowResult.refl (r : Except String PyValue) : LowResult runtime config r r := by
  cases r with
  | error e => exact .error e
  | ok v => exact .ok (.same v)

theorem safeResult_low {v w : PyValue} (h : LowValue runtime config v w) :
    LowResult runtime config (safeResult config.toSerializerConfig v)
      (safeResult config.toSerializerConfig w) := by
  cases h with
  | same => exact .refl _
  | low h =>
    cases h with
    | null | bool | num | str => exact .refl _
    | arr h => exact .ok (.low (.arr h))
    | obj h => exact .ok (.low (.obj h))

theorem unary_erase (operator : UnaryOperator) (v : PyValue) :
    unary operator v = unary operator (erase v) := by
  cases operator <;> cases v <;> rfl

def isContainer : PyValue → Bool
  | .list _ | .dict _ => true
  | _ => false

theorem LowValue.eq_or {v w : PyValue} (h : LowValue runtime config v w) :
    v = w ∨ isContainer v = true ∧ isContainer w = true := by
  cases h with
  | same => exact Or.inl rfl
  | low h =>
    cases h with
    | null | bool | num | str => exact Or.inl rfl
    | arr | obj => exact Or.inr ⟨rfl, rfl⟩

theorem not_isContainer {v : PyValue} {α : Prop} (h : isContainer v = true)
    (hv : isContainer v = false) : α :=
  Bool.noConfusion (h.symm.trans hv)

theorem isScalar_container {v : PyValue} (h : isContainer v = true) : isScalar v = false := by
  cases v with
  | list | dict => rfl
  | none | bool | number | str => exact absurd h Bool.false_ne_true

theorem numericError_erase (v w : PyValue) :
    numericError [v, w] = numericError [erase v, erase w] := by
  cases v <;> cases w <;> rfl

/-- An operator does not look into a container. -/
theorem binary_container (config : SerializerConfig) (operator : BinaryOperator) {v w : PyValue}
    (h : isContainer v = true ∨ isContainer w = true) :
    binary config operator v w = .error (if operator = .eq ∨ operator = .ne then "expected-scalars"
      else numericError [erase v, erase w]) := by
  have hscalar : (isScalar v && isScalar w) = false := by
    rcases h with h | h
    · rw [isScalar_container h, Bool.false_and]
    · rw [isScalar_container h, Bool.and_false]
  have hpair : numberPair v w = none := by
    cases v <;> cases w <;> first | rfl | exact absurd h (by simp [isContainer])
  rw [← numericError_erase]
  unfold binary
  by_cases heq : operator = .eq ∨ operator = .ne
  · rw [if_pos heq, if_pos heq, hscalar]
    rfl
  · rw [if_neg heq, if_neg heq, hpair]
    by_cases hcompare : operator = .gt ∨ operator = .gte ∨ operator = .lt ∨ operator = .lte
    · rw [if_pos hcompare]
    · rw [if_neg hcompare]
      split
      · exact absurd h (by simp [isContainer])
      · rfl

theorem unary_low {v w : PyValue} (h : LowValue runtime config v w) (operator : UnaryOperator) :
    unary operator v = unary operator w := by
  rw [unary_erase, h.erase, ← unary_erase]

theorem binary_low {v w v' w' : PyValue} (h : LowValue runtime config v w)
    (h' : LowValue runtime config v' w') (config' : SerializerConfig) (operator : BinaryOperator) :
    binary config' operator v v' = binary config' operator w w' := by
  rcases h.eq_or with rfl | ⟨hv, hw⟩
  · rcases h'.eq_or with rfl | ⟨hv', hw'⟩
    · rfl
    · rw [binary_container config' operator (Or.inr hv'), h'.erase,
        binary_container config' operator (Or.inr hw')]
  · rw [binary_container config' operator (Or.inl hv), h.erase, h'.erase,
      binary_container config' operator (Or.inl hw)]

theorem follow_low {v w : PyValue} (h : LowValue runtime config v w) {segment : PySegment}
    (hopen : Opened runtime config v segment) :
    Option.Rel (LowValue runtime config) (follow runtime.unicode v segment)
      (follow runtime.unicode w segment) := by
  have hrefl : ∀ x : Option PyValue, Option.Rel (LowValue runtime config) x x := fun x => by
    cases x with
    | none => exact .none
    | some x => exact .some (.same x)
  cases h with
  | same => exact hrefl _
  | low h =>
    cases h with
    | null | bool | num | str => exact hrefl _
    | @arr items items' h =>
      unfold follow PyValue.ofJson
      dsimp only
      rcases sequenceIndex runtime.unicode segment with - | i
      · exact .none
      · simp only [Option.bind_eq_bind, Option.bind_some, h.length_eq]
        have hget := h.get i
        split
        · exact .none
        · rcases hv : items[i]? with - | v <;> rcases hv' : items'[i]? with - | v' <;>
            rw [hv, hv'] at hget <;> cases hget
          · exact .none
          · next h => exact .some (.low h)
    | @obj members members' h =>
      have hopen := hopen members rfl
      unfold follow PyValue.ofJson ownDictValue at hopen ⊢
      dsimp only at hopen ⊢
      rcases hm : members.find? (fun m => codePoints m.1 = segmentText segment) with - | m
      · rw [hm, h.find_eq_none hm]
        exact .none
      · have hfind := h.find (hopen (by rw [hm]; rfl))
        rcases hm' : members'.find? (fun m => codePoints m.1 = segmentText segment) with - | m' <;>
          rw [hm, hm'] at hfind <;> cases hfind
        next h =>
          rw [hm, hm']
          exact .some (.low h)

theorem resolvePath_low {path : List PySegment} {v w : PyValue} (hpath : OpenAlong runtime config path v)
    (h : LowValue runtime config v w) :
    LowResult runtime config (resolvePath runtime.unicode config.toSerializerConfig path v)
      (resolvePath runtime.unicode config.toSerializerConfig path w) := by
  induction path generalizing v w with
  | nil => exact safeResult_low h
  | cons segment path ih =>
    unfold resolvePath
    by_cases hredacts : redactsSegment runtime.unicode config.toSerializerConfig segment = true
    · rw [if_pos hredacts, if_pos hredacts]
      exact .error _
    · rw [if_neg hredacts, if_neg hredacts]
      obtain ⟨hopen, hrest⟩ := hpath (Bool.eq_false_of_not_eq_true hredacts)
      have hfollow := follow_low h hopen
      rcases hv : follow runtime.unicode v segment with - | v' <;>
        rcases hw : follow runtime.unicode w segment with - | w' <;>
        rw [hv, hw] at hfollow <;> cases hfollow
      · exact .error _
      · next hlow => exact ih (hrest v' hv) hlow

/-- The right operand is evaluated where the left one does not decide. -/
theorem openIn_of_undecided {operator : BinaryOperator} {c : Bool} {q : Prop} (hlogic : operator = .and ∨ operator = .or)
    (hand : ¬ (operator = .and ∧ c = false)) (hor : ¬ (operator = .or ∧ c = true))
    (h : match operator.decidedBy with
      | some decisive => PyValue.bool c = .bool !decisive → q
      | none => q) : q := by
  rcases hlogic with rfl | rfl
  · cases c with
    | false => exact absurd ⟨rfl, rfl⟩ hand
    | true => exact h rfl
  · cases c with
    | false => exact h rfl
    | true => exact absurd ⟨rfl, rfl⟩ hor

theorem openIn_of_neither {operator : BinaryOperator} {a : PyValue} {q : Prop}
    (hlogic : ¬ (operator = .and ∨ operator = .or))
    (h : match operator.decidedBy with
      | some decisive => a = .bool !decisive → q
      | none => q) : q := by
  cases operator with
  | and => exact absurd (.inl rfl) hlogic
  | or => exact absurd (.inr rfl) hlogic
  | add | subtract | multiply | divide | modulo | eq | ne | gt | gte | lt | lte => exact h

theorem evaluate_low {node : PyNode} {v w : PyValue} (hnode : OpenIn runtime config v node)
    (h : LowValue runtime config v w) :
    LowResult runtime config (evaluate runtime.unicode config.toSerializerConfig v node)
      (evaluate runtime.unicode config.toSerializerConfig w node) := by
  induction node with
  | literal value => exact .refl _
  | reference path => exact resolvePath_low hnode h
  | unary operator operand ih =>
    have hoperand := ih hnode
    unfold evaluate
    rcases hv : evaluate runtime.unicode config.toSerializerConfig v operand with e | a <;>
      rcases hw : evaluate runtime.unicode config.toSerializerConfig w operand with e' | b <;>
      rw [hv, hw] at hoperand <;> cases hoperand
    · exact .error _
    · next hab =>
      show LowResult runtime config (PythonAgent.unary operator a) (PythonAgent.unary operator b)
      rw [unary_low hab]
      exact .refl _
  | binary operator left right ihl ihr =>
    have hleft := ihl hnode.1
    have hcontinues := hnode.2
    unfold evaluate
    rcases hv : evaluate runtime.unicode config.toSerializerConfig v left with e | a <;>
      rcases hw : evaluate runtime.unicode config.toSerializerConfig w left with e' | b <;>
      rw [hv, hw] at hleft <;> cases hleft
    · exact .error _
    · next hab =>
      by_cases hlogic : operator = .and ∨ operator = .or
      · simp only [if_pos hlogic, bind, Except.bind]
        rcases hab.eq_or with rfl | ⟨ha, hb⟩
        · cases a with
          | bool c =>
            dsimp only
            split
            · exact .refl _
            · split
              · exact .refl _
              · have hright := ihr (openIn_of_undecided hlogic ‹_› ‹_› (hcontinues _ hv))
                rcases hv' : evaluate runtime.unicode config.toSerializerConfig v right with e | a' <;>
                  rcases hw' : evaluate runtime.unicode config.toSerializerConfig w right with e' | b' <;>
                  rw [hv', hw'] at hright <;> cases hright
                · exact .error _
                · next hab' =>
                  rcases hab'.eq_or with rfl | ⟨ha', hb'⟩
                  · exact .refl _
                  · cases a' <;> cases b' <;> first
                      | exact .error _
                      | exact not_isContainer ha' rfl
                      | exact not_isContainer hb' rfl
          | none | number | str | list | dict => exact .error _
        · cases a <;> cases b <;> first
            | exact .error _
            | exact not_isContainer ha rfl
            | exact not_isContainer hb rfl
      · have hright := ihr (openIn_of_neither hlogic (hcontinues _ hv))
        simp only [if_neg hlogic, bind, Except.bind]
        rcases hv' : evaluate runtime.unicode config.toSerializerConfig v right with e | a' <;>
          rcases hw' : evaluate runtime.unicode config.toSerializerConfig w right with e' | b' <;>
          rw [hv', hw'] at hright <;> cases hright
        · exact .error _
        · next hab' =>
          dsimp only
          rw [binary_low hab hab']
          exact .refl _

/-! ### Hits -/

/-- Two entries of the stack that differ below redacted keys only. -/
structure LowEntry (runtime : Runtime Other) (config : SerializerLimits) (e e' : StackEntry) :
    Prop where
  fn : e.fn = e'.fn
  file : e.file = e'.file
  line : e.line = e'.line
  captured : Option.Rel (LowMembers (redacts runtime config)) e.captured e'.captured

/-- Two hits that differ below redacted keys only. -/
structure LowHit (runtime : Runtime Other) (config : SerializerLimits) (hit hit' : RawHit) :
    Prop where
  captured : LowMembers (redacts runtime config) hit.captured hit'.captured
  stack : List.Forall₂ (LowEntry runtime config) hit.stack hit'.stack

/-- A dot path that leads through a redacted key, and past it. -/
def Crosses (runtime : Runtime Other) (config : SerializerLimits) (path : JsString) : Prop :=
  (path ≠ [] ∧ ∀ s ∈ path.splitOn 0x2E, s ≠ []) ∧
    (∃ s ∈ path.splitOn 0x2E, redacts runtime config s = true) ∧
    redactsKey runtime.unicode config.toSerializerConfig (lastSegment path) = false

theorem LowMembers.object {members members' : List (JsString × Json)}
    (h : LowMembers (redacts runtime config) members members') :
    LowObject runtime config (.value (.dict members)) (.value (.dict members')) :=
  .low (.obj h)

/-- What a dot path finds, unless it crosses a redacted key. -/
theorem resolveDotPath_low (hattr : TypeAttributes runtime) {members members' : List (JsString × Json)}
    (h : LowMembers (redacts runtime config) members members') {path : JsString}
    (hlast : redactsKey runtime.unicode config.toSerializerConfig (lastSegment path) = false)
    (hpath : ¬ Crosses runtime config path) :
    LowFound runtime config
      (resolveDotPath runtime.toInterpreter (.value (.dict members)) (codePoints path))
      (resolveDotPath runtime.toInterpreter (.value (.dict members')) (codePoints path)) := by
  unfold resolveDotPath
  by_cases hempty : codePoints path = []
  · rw [if_pos hempty, if_pos hempty]
    exact .none
  · rw [if_neg hempty, if_neg hempty, DotPath.splitOn_codePoints]
    by_cases hsegments : ∀ s ∈ path.splitOn 0x2E, s ≠ []
    · refine foldlM_low hattr (fun s hs => ?_) h.object
      obtain ⟨t, ht, rfl⟩ := List.mem_map.mp hs
      by_contra hredacts
      have hne : path ≠ [] := fun hp => hempty (by rw [hp]; rfl)
      exact hpath ⟨⟨hne, hsegments⟩, ⟨t, ht, Bool.eq_true_of_not_eq_false hredacts⟩, hlast⟩
    · -- an empty segment leads nowhere
      have hnone : ∀ (segments : List PyString) (x : PyObject Other), [] ∈ segments →
          segments.foldlM (fun current segment =>
            if segment = [] then none else dotStep runtime.toInterpreter current segment) x = none := by
        intro segments
        induction segments with
        | nil => exact fun _ hmem => absurd hmem List.not_mem_nil
        | cons segment segments ih =>
          intro x hmem
          rw [List.foldlM_cons]
          by_cases hs : segment = []
          · rw [if_pos hs]
            rfl
          · rw [if_neg hs]
            have hrest := (List.mem_cons.mp hmem).resolve_left (Ne.symm hs)
            rcases dotStep runtime.toInterpreter x segment with - | y
            · rfl
            · exact ih y hrest
      push Not at hsegments
      obtain ⟨s, hs, rfl⟩ := hsegments
      have hmem : ([] : PyString) ∈ (path.splitOn 0x2E).map codePoints :=
        List.mem_map.mpr ⟨[], hs, rfl⟩
      rw [hnone _ _ hmem, hnone _ _ hmem]
      exact .none

theorem serializePath_low (hattr : TypeAttributes runtime)
    {members members' : List (JsString × Json)}
    (h : LowMembers (redacts runtime config) members members') {path : JsString}
    (hpath : ¬ Crosses runtime config path) :
    serializePath runtime config members path = serializePath runtime config members' path := by
  unfold serializePath
  dsimp only
  by_cases hlast : redactsKey runtime.unicode config.toSerializerConfig (lastSegment path) = true
  · rw [if_pos hlast, if_pos hlast]
  · rw [if_neg hlast, if_neg hlast]
    have hfound := resolveDotPath_low hattr h (Bool.eq_false_of_not_eq_true hlast) hpath
    rcases hx : resolveDotPath runtime.toInterpreter (.value (.dict members)) (codePoints path)
      with - | x <;>
      rcases hy : resolveDotPath runtime.toInterpreter (.value (.dict members')) (codePoints path)
        with - | y <;>
      rw [hx, hy] at hfound <;> cases hfound
    next hxy => exact serializeObject_low hxy _

theorem evaluateIn_low {members members' : List (JsString × Json)}
    (h : LowMembers (redacts runtime config) members members') {expression : PyExpression}
    (hopen : OpenIn runtime config (.dict members) expression.ast) :
    LowResult runtime config (evaluateIn runtime config members expression)
      (evaluateIn runtime config members' expression) :=
  evaluate_low hopen (.low (.obj h))

theorem watchExpression_low {members members' : List (JsString × Json)}
    (h : LowMembers (redacts runtime config) members members') {expression : PyExpression}
    (hopen : OpenIn runtime config (.dict members) expression.ast) :
    watchExpression runtime config members expression
      = watchExpression runtime config members' expression := by
  have hresult := evaluateIn_low h hopen
  unfold watchExpression
  rcases hv : evaluateIn runtime config members expression with e | v <;>
    rcases hw : evaluateIn runtime config members' expression with e' | w <;>
    rw [hv, hw] at hresult <;> cases hresult
  next hvw => exact serializeObject_low hvw.object _

theorem renderValue_erase (v : PyValue) : renderValue runtime v = renderValue runtime (erase v) := by
  cases v with
  | none | bool | str | list | dict => rfl
  | number n => rfl

theorem renderSegment_low {members members' : List (JsString × Json)}
    (h : LowMembers (redacts runtime config) members members') {segment : PyTemplateSegment}
    (hopen : ∀ e, segment = .expression e → OpenIn runtime config (.dict members) e.ast) :
    renderSegment runtime config members segment = renderSegment runtime config members' segment := by
  cases segment with
  | text value => rfl
  | expression e =>
    have hresult := evaluateIn_low h (hopen e rfl)
    unfold renderSegment
    dsimp only
    rcases hv : evaluateIn runtime config members e with error | v <;>
      rcases hw : evaluateIn runtime config members' e with error' | w <;>
      rw [hv, hw] at hresult <;> cases hresult
    · rfl
    · next hvw =>
      show renderValue runtime v = renderValue runtime w
      rw [renderValue_erase, hvw.erase, ← renderValue_erase]

/-- The segments that are rendered come to no redacted key by an index. -/
def SegmentsOpen (runtime : Runtime Other) (config : SerializerLimits) (members : List (JsString × Json)) :
    PyString → List PyTemplateSegment → Prop
  | _, [] => True
  | rendered, segment :: rest =>
    (∀ e, segment = .expression e → OpenIn runtime config (.dict members) e.ast) ∧
      ((rendered ++ renderSegment runtime config members segment).length < 4096 →
        SegmentsOpen runtime config members (rendered ++ renderSegment runtime config members segment) rest)

theorem renderSegments_low {members members' : List (JsString × Json)}
    (h : LowMembers (redacts runtime config) members members') {segments : List PyTemplateSegment} {rendered : PyString}
    (hopen : SegmentsOpen runtime config members rendered segments) :
    renderSegments runtime config members rendered segments
      = renderSegments runtime config members' rendered segments := by
  induction segments generalizing rendered with
  | nil => rfl
  | cons segment segments ih =>
    have htext := renderSegment_low h hopen.1
    unfold renderSegments
    dsimp only
    rw [← htext]
    split
    · rfl
    · rename_i hshort
      exact ih (hopen.2 (not_le.mp hshort))

theorem snapshotStack_low {stack stack' : List StackEntry}
    (h : List.Forall₂ (LowEntry runtime config) stack stack') (probe : PyProbe) :
    snapshotStack runtime config probe stack = snapshotStack runtime config probe stack' := by
  have hselected : List.Forall₂ (LowEntry runtime config)
      (if probe.includeStackLocals then stack.take probe.stackFrameLimit else stack)
      (if probe.includeStackLocals then stack'.take probe.stackFrameLimit else stack') := by
    split
    · exact List.forall₂_take _ h
    · exact h
  unfold snapshotStack
  dsimp only
  rw [← List.forall₂_eq_eq_eq]
  refine List.rel_map (fun e e' he => ?_) hselected
  obtain ⟨fn, file, line, captured⟩ := e
  obtain ⟨fn', file', line', captured'⟩ := e'
  obtain ⟨rfl, rfl, rfl, hcaptured⟩ := he
  have hvars : serializeObject runtime config (.value (.dict (captured.getD []))) none
      = serializeObject runtime config (.value (.dict (captured'.getD []))) none := by
    cases hcaptured with
    | none => rfl
    | some hm => exact serializeObject_low hm.object _
  rw [hvars]

/-! ### What an event shows -/

/-- The dot paths whose values the events of a probe show.  A watch gives way to an
expression of the same text. -/
def Shows (probe : PyProbe) (path : JsString) : Prop :=
  match probe.kind with
  | .snapshot => path ∈ probe.watchPaths ∧ ∀ e ∈ probe.watchExpressions, e.source ≠ codePoints path
  | .log => probe.templateSegments = none ∧ .path path ∈ pieces (probe.template.getD [])
  | .metric => probe.metricExpression = none ∧ path = probe.metricPath.getD []
  | .counter => False

/-- No expression that is evaluated for an event comes to a redacted key by an index. -/
def ExpressionsOpen (runtime : Runtime Other) (config : SerializerLimits) (probe : PyProbe)
    (members : List (JsString × Json)) : Prop :=
  match probe.kind with
  | .snapshot => ∀ e ∈ probe.watchExpressions, OpenIn runtime config (.dict members) e.ast
  | .log => ∀ segments, probe.templateSegments = some segments → SegmentsOpen runtime config members [] segments
  | .metric => ∀ e, probe.metricExpression = some e → OpenIn runtime config (.dict members) e.ast
  | .counter => True

/-- Watches with the same keys, and the same values but for some keys. -/
def AlikeBut (p : PyString → Prop) (m m' : JsMap PyString Sanitized) : Prop :=
  List.Forall₂ (fun e e' => e.1 = e'.1 ∧ (p e.1 ∨ e.2 = e'.2)) m.entries m'.entries

theorem AlikeBut.keys_eq {p : PyString → Prop} {m m' : JsMap PyString Sanitized}
    (h : AlikeBut p m m') : m.keys = m'.keys := by
  have hkeys := List.rel_map (P := Eq) (fun _ _ he => And.left he) h
  rw [List.forall₂_eq_eq_eq] at hkeys
  exact hkeys

theorem AlikeBut.set {p q : PyString → Prop} {m m' : JsMap PyString Sanitized}
    (h : AlikeBut p m m') {key : PyString} {v v' : Sanitized} (hv : q key ∨ v = v')
    (hq : ∀ x, x ≠ key → p x → q x) : AlikeBut q (m.set key v) (m'.set key v') := by
  have hkeys := h.keys_eq
  unfold AlikeBut
  by_cases hmem : key ∈ m.keys
  · rw [JsMap.entries_set_of_mem hmem, JsMap.entries_set_of_mem (hkeys ▸ hmem)]
    refine List.rel_map (fun e e' he => ?_) h
    by_cases hkey : e.1 = key
    · rw [if_pos hkey, if_pos (he.1.symm.trans hkey)]
      exact ⟨rfl, hv⟩
    · rw [if_neg hkey, if_neg fun hk => hkey (he.1.trans hk)]
      exact ⟨he.1, he.2.imp_left (hq _ hkey)⟩
  · rw [JsMap.entries_set_of_notMem hmem, JsMap.entries_set_of_notMem (hkeys ▸ hmem)]
    refine List.rel_append ?_ (.cons ⟨rfl, hv⟩ .nil)
    have hin : ∀ e ∈ m.entries, e.1 ∈ m.keys := fun e he => List.mem_map_of_mem he
    refine List.Forall₂.imp ?_ ((List.forall₂_and_left m.entries m'.entries).mpr ⟨hin, h⟩)
    rintro e e' ⟨hin, he⟩
    exact ⟨he.1, he.2.imp_left (hq _ fun hk => hmem (hk ▸ hin))⟩

theorem watchesOf_low (hattr : TypeAttributes runtime) {members members' : List (JsString × Json)}
    (h : LowMembers (redacts runtime config) members members') {probe : PyProbe}
    (hpaths : ∀ path ∈ probe.watchPaths, Crosses runtime config path →
      ∃ e ∈ probe.watchExpressions, e.source = codePoints path)
    (hopen : ∀ e ∈ probe.watchExpressions, OpenIn runtime config (.dict members) e.ast) :
    watchesOf runtime config probe members = watchesOf runtime config probe members' := by
  -- the watches of crossing paths may differ, until an expression takes their place
  have hfirst : ∀ (paths : List JsString) (m m' : JsMap PyString Sanitized),
      AlikeBut (fun x => ∃ path ∈ probe.watchPaths, codePoints path = x ∧ Crosses runtime config path)
        m m' → (∀ path ∈ paths, path ∈ probe.watchPaths) →
      AlikeBut (fun x => ∃ path ∈ probe.watchPaths, codePoints path = x ∧ Crosses runtime config path)
        (paths.foldl (fun watches path =>
          watches.set (codePoints path) (serializePath runtime config members path)) m)
        (paths.foldl (fun watches path =>
          watches.set (codePoints path) (serializePath runtime config members' path)) m') := by
    intro paths
    induction paths with
    | nil => exact fun m m' hm _ => hm
    | cons path paths ih =>
      intro m m' hm hmem
      refine ih _ _ (hm.set ?_ fun _ _ hx => hx) fun q hq => hmem q (List.mem_cons_of_mem _ hq)
      by_cases hcross : Crosses runtime config path
      · exact Or.inl ⟨path, hmem path List.mem_cons_self, rfl, hcross⟩
      · exact Or.inr (serializePath_low hattr h hcross)
  have hsecond : ∀ (expressions : List PyExpression) (p : PyString → Prop)
      (m m' : JsMap PyString Sanitized), AlikeBut p m m' →
        (∀ e ∈ expressions, OpenIn runtime config (.dict members) e.ast) →
      AlikeBut (fun x => p x ∧ ∀ e ∈ expressions, e.source ≠ x)
        (expressions.foldl (fun watches expression =>
          watches.set expression.source (watchExpression runtime config members expression)) m)
        (expressions.foldl (fun watches expression =>
          watches.set expression.source (watchExpression runtime config members' expression)) m') := by
    intro expressions
    induction expressions with
    | nil =>
      intro p m m' hm _
      exact hm.imp fun _ _ he => ⟨he.1, he.2.imp_left fun hp => ⟨hp, fun _ hx => absurd hx List.not_mem_nil⟩⟩
    | cons e expressions ih =>
      intro p m m' hm hopen
      have hset : AlikeBut (fun x => p x ∧ e.source ≠ x)
          (m.set e.source (watchExpression runtime config members e))
          (m'.set e.source (watchExpression runtime config members' e)) :=
        hm.set (Or.inr (watchExpression_low h (hopen e List.mem_cons_self)))
          fun x hx hp => ⟨hp, Ne.symm hx⟩
      refine (ih _ _ _ hset fun e' he' => hopen e' (List.mem_cons_of_mem _ he')).imp ?_
      rintro x x' ⟨hkey, hvalue⟩
      refine ⟨hkey, hvalue.imp_left ?_⟩
      rintro ⟨⟨hp, hne⟩, hall⟩
      refine ⟨hp, fun e' he' => ?_⟩
      rcases List.mem_cons.mp he' with rfl | he'
      · exact hne
      · exact hall e' he'
  have hwatches := hsecond probe.watchExpressions _ _ _
    (hfirst probe.watchPaths ∅ ∅ .nil fun _ hq => hq) hopen
  have heq : List.Forall₂ Eq (watchesOf runtime config probe members).entries
      (watchesOf runtime config probe members').entries := by
    refine hwatches.imp fun e e' he => Prod.ext he.1 (he.2.resolve_left ?_)
    rintro ⟨⟨path, hpath, hkey, hcross⟩, hnone⟩
    obtain ⟨expression, hmem, hsource⟩ := hpaths path hpath hcross
    exact hnone expression hmem (hsource.trans hkey)
  rw [List.forall₂_eq_eq_eq] at heq
  exact JsMap.ext heq

/-- What is produced of a hit without a condition. -/
theorem processHit_eq {probe : PyProbe} (hcondition : probe.condition = none)
    (hexpression : probe.conditionExpression = none) (hit : RawHit) :
    processHit runtime config probe hit =
      match probe.kind with
      | .snapshot =>
        .snapshot (serializeObject runtime config (.value (.dict hit.captured)) none)
          (watchesOf runtime config probe hit.captured) (snapshotStack runtime config probe hit.stack)
      | .log =>
        .log
          (match probe.templateSegments with
            | none => renderTemplate runtime config (probe.template.getD []) hit.captured
            | some segments => renderSegments runtime config hit.captured [] segments)
          probe.logLevel
      | .counter => .counter
      | .metric =>
        match metricSample runtime config probe hit.captured with
        | .ok n => .sample n
        | .error detail => .error detail := by
  unfold processHit
  rw [hcondition, hexpression]
  rfl

theorem metricSample_low (hattr : TypeAttributes runtime)
    {members members' : List (JsString × Json)}
    (h : LowMembers (redacts runtime config) members members') {probe : PyProbe}
    (hpath : probe.metricExpression = none → ¬ Crosses runtime config (probe.metricPath.getD []))
    (hopen : ∀ e, probe.metricExpression = some e → OpenIn runtime config (.dict members) e.ast) :
    metricSample runtime config probe members = metricSample runtime config probe members' := by
  unfold metricSample
  rcases he : probe.metricExpression with - | e
  · dsimp only
    by_cases hlast : redactsKey runtime.unicode config.toSerializerConfig
        (lastSegment (probe.metricPath.getD [])) = true
    · rw [if_pos hlast, if_pos hlast]
    · rw [if_neg hlast, if_neg hlast]
      have hfound := resolveDotPath_low hattr h (Bool.eq_false_of_not_eq_true hlast) (hpath he)
      have hnumber : ∀ x y, LowFound runtime config x y → x.bind asNumber = y.bind asNumber := by
        intro x y hxy
        cases hxy with
        | none => rfl
        | some hxy =>
          cases hxy with
          | same => rfl
          | low h => cases h <;> rfl
      rw [hnumber _ _ hfound]
  · have hresult := evaluateIn_low h (hopen e he)
    dsimp only
    rcases hv : evaluateIn runtime config members e with error | v <;>
      rcases hw : evaluateIn runtime config members' e with error' | w <;>
      rw [hv, hw] at hresult <;> cases hresult
    · rfl
    · next hvw =>
      rcases hvw.eq_or with rfl | ⟨hv', hw'⟩
      · rfl
      · cases v <;> cases w <;> first
          | rfl
          | exact not_isContainer hv' rfl
          | exact not_isContainer hw' rfl

/-- A probe that shows no crossing path, and evaluates no expression by the index of a redacted
key, cannot tell two hits apart. -/
theorem processHit_low (hattr : TypeAttributes runtime) {probe : PyProbe}
    (hcondition : probe.condition = none) (hexpression : probe.conditionExpression = none)
    (hpaths : ∀ path, Shows probe path → ¬ Crosses runtime config path)
    {hit hit' : RawHit} (hopen : ExpressionsOpen runtime config probe hit.captured)
    (h : LowHit runtime config hit hit') :
    processHit runtime config probe hit = processHit runtime config probe hit' := by
  rw [processHit_eq hcondition hexpression, processHit_eq hcondition hexpression]
  unfold Shows at hpaths
  unfold ExpressionsOpen at hopen
  rcases hkind : probe.kind <;> rw [hkind] at hpaths hopen <;> dsimp only at hpaths hopen ⊢
  · have hwatches : watchesOf runtime config probe hit.captured
        = watchesOf runtime config probe hit'.captured := by
      refine watchesOf_low hattr h.captured (fun path hmem hcross => ?_) hopen
      by_contra hnone
      exact hpaths path ⟨hmem, fun e he hsource => hnone ⟨e, he, hsource⟩⟩ hcross
    rw [serializeObject_low h.captured.object, hwatches, snapshotStack_low h.stack]
  · rcases hsegments : probe.templateSegments with - | segments
    · have hmessage : renderTemplate runtime config (probe.template.getD []) hit.captured
          = renderTemplate runtime config (probe.template.getD []) hit'.captured := by
        unfold renderTemplate
        refine List.flatMap_congr fun piece hpiece => ?_
        cases piece with
        | text s => rfl
        | path p =>
          unfold renderPiece
          dsimp only
          rw [serializePath_low hattr h.captured (hpaths p ⟨hsegments, hpiece⟩)]
      dsimp only
      rw [hmessage]
    · dsimp only
      rw [renderSegments_low h.captured (hopen segments hsegments)]
  · rw [metricSample_low hattr h.captured (fun he => hpaths _ ⟨he, rfl⟩) hopen]

/-! ### Two trees that a crossing path tells apart -/

/-- Objects within each other along some segments, around a number. -/
def chain : List JsString → ℤ → Json
  | [], n => .num n
  | segment :: segments, n => .obj [(segment, chain segments n)]

/-- The variables that begin with the first of the segments. -/
def chainRoot : List JsString → ℤ → List (JsString × Json)
  | [], _ => []
  | segment :: segments, n => [(segment, chain segments n)]

theorem lowEq_chain {segments : List JsString}
    (h : ∃ s ∈ segments, redacts runtime config s = true) (m n : ℤ) :
    LowEq (redacts runtime config) (chain segments m) (chain segments n) := by
  induction segments with
  | nil =>
    obtain ⟨s, hs, -⟩ := h
    exact absurd hs List.not_mem_nil
  | cons segment segments ih =>
    by_cases hsegment : redacts runtime config segment = true
    · exact .obj (.hidden hsegment .nil)
    · refine .obj (.shown (ih ?_) .nil)
      obtain ⟨s, hs, hredacts⟩ := h
      rcases List.mem_cons.mp hs with rfl | hs
      · exact absurd hredacts hsegment
      · exact ⟨s, hs, hredacts⟩

theorem lowHit_chain {segments : List JsString}
    (h : ∃ s ∈ segments, redacts runtime config s = true) (m n : ℤ) :
    LowHit runtime config ⟨chainRoot segments m, []⟩ ⟨chainRoot segments n, []⟩ := by
  cases segments with
  | nil =>
    obtain ⟨s, hs, -⟩ := h
    exact absurd hs List.not_mem_nil
  | cons segment segments =>
    have hlow : LowEq (redacts runtime config) (.obj (chainRoot (segment :: segments) m))
        (.obj (chainRoot (segment :: segments) n)) := lowEq_chain h m n
    cases hlow with
    | obj hmembers => exact ⟨hmembers, .nil⟩

theorem ofJson_int (n : ℤ) : PyValue.ofJson (.num n) = .number (.int n) := by
  show PyValue.number (if (n : ℚ).den = 1 then .int (n : ℚ).num else _) = _
  rw [if_pos (Rat.den_intCast n), Rat.num_intCast]

/-- One segment into a chain. -/
theorem dotStep_chain (segment key : JsString) (v : Json) :
    dotStep runtime.toInterpreter (.value (.dict [(segment, v)])) (codePoints key)
      = if segment = key then some (.value (.ofJson v)) else none := by
  show ((([(segment, v)] : List (JsString × Json)).find? fun m =>
    codePoints m.1 = codePoints key).map fun m => PyValue.ofJson m.2).map _ = _
  by_cases heq : segment = key
  · rw [if_pos heq, heq, List.find?_cons_of_pos (by simp)]
    rfl
  · have hne : ¬ codePoints segment = codePoints key := fun h => heq (codePoints_injective h)
    rw [if_neg heq, List.find?_cons_of_neg (by simpa using hne)]
    rfl

/-- The path of a chain leads to its number. -/
theorem foldlM_chain {segments : List JsString} (h : ∀ s ∈ segments, s ≠ []) (n : ℤ) :
    (segments.map codePoints).foldlM (fun current segment =>
        if segment = [] then none else dotStep runtime.toInterpreter current segment)
      (.value (.ofJson (chain segments n)) : PyObject Other)
        = some (.value (.number (.int n))) := by
  induction segments with
  | nil =>
    rw [← ofJson_int]
    rfl
  | cons segment segments ih =>
    have hne : codePoints segment ≠ [] := fun hc =>
      h segment List.mem_cons_self (codePoints_injective (hc.trans rfl))
    rw [List.map_cons, List.foldlM_cons, if_neg hne]
    have hstep : dotStep runtime.toInterpreter (.value (.dict [(segment, chain segments n)]))
        (codePoints segment) = some (.value (.ofJson (chain segments n))) :=
      (dotStep_chain segment segment _).trans (if_pos rfl)
    have hofJson : PyValue.ofJson (chain (segment :: segments) n)
        = .dict [(segment, chain segments n)] := rfl
    rw [hofJson, hstep]
    exact ih fun s hs => h s (List.mem_cons_of_mem _ hs)

/-- A path that does not lead towards the number of a chain cannot tell it from another. -/
theorem foldlM_apart (hattr : TypeAttributes runtime) {segments keys : List JsString}
    (h : ¬ keys <+: segments) (m n : ℤ) :
    (keys.map codePoints).foldlM (fun current segment =>
        if segment = [] then none else dotStep runtime.toInterpreter current segment)
      (.value (.ofJson (chain segments m)) : PyObject Other)
      = (keys.map codePoints).foldlM (fun current segment =>
        if segment = [] then none else dotStep runtime.toInterpreter current segment)
      (.value (.ofJson (chain segments n))) := by
  induction keys generalizing segments with
  | nil => exact absurd List.nil_prefix h
  | cons key keys ih =>
    rw [List.map_cons, List.foldlM_cons, List.foldlM_cons]
    by_cases hempty : codePoints key = []
    · rw [if_pos hempty, if_pos hempty]
    · rw [if_neg hempty, if_neg hempty]
      cases segments with
      | nil =>
        -- the attributes of the two numbers are those of `int`
        have hstep : dotStep runtime.toInterpreter (.value (.ofJson (chain [] m))) (codePoints key)
            = dotStep runtime.toInterpreter (.value (.ofJson (chain [] n))) (codePoints key) := by
          show dotStep _ (.value (.ofJson (.num m))) _ = dotStep _ (.value (.ofJson (.num n))) _
          rw [ofJson_int, ofJson_int]
          exact hattr _ _ _ (.int m n)
        rw [hstep]
      | cons segment segments =>
        have hofJson : ∀ k : ℤ, PyValue.ofJson (chain (segment :: segments) k)
            = .dict [(segment, chain segments k)] := fun _ => rfl
        rw [hofJson, hofJson, dotStep_chain, dotStep_chain]
        by_cases heq : segment = key
        · rw [if_pos heq, if_pos heq]
          refine ih fun hprefix => h ?_
          rw [heq]
          exact List.cons_prefix_cons.mpr ⟨rfl, hprefix⟩
        · rw [if_neg heq, if_neg heq]

/-- The variables around a number, as the object they are. -/
theorem chainRoot_eq {segments : List JsString} (h : segments ≠ []) (n : ℤ) :
    (.value (.dict (chainRoot segments n)) : PyObject Other)
      = .value (.ofJson (chain segments n)) := by
  cases segments with
  | nil => exact absurd rfl h
  | cons segment segments => rfl

/-- The path of a chain shows its number. -/
theorem serializePath_chain {path : JsString} (h : Crosses runtime config path) (n : ℤ) :
    resolveDotPath runtime.toInterpreter (.value (.dict (chainRoot (path.splitOn 0x2E) n)))
        (codePoints path) = some (.value (.number (.int n))) ∧
      serializePath runtime config (chainRoot (path.splitOn 0x2E) n) path = .num (.int n) := by
  obtain ⟨⟨hne, hsegments⟩, -, hlast⟩ := h
  have hcodes : codePoints path ≠ [] := fun hc => hne (codePoints_injective (hc.trans rfl))
  have hresolve : resolveDotPath runtime.toInterpreter
      (.value (.dict (chainRoot (path.splitOn 0x2E) n))) (codePoints path)
        = some (.value (.number (.int n))) := by
    unfold resolveDotPath
    rw [if_neg hcodes, DotPath.splitOn_codePoints, chainRoot_eq (List.splitOn_ne_nil _ _)]
    exact foldlM_chain hsegments n
  refine ⟨hresolve, ?_⟩
  unfold serializePath
  dsimp only
  rw [hlast, if_neg Bool.false_ne_true, hresolve]
  show serialize _ _ _ _ _ = _
  unfold serialize
  rw [Option.any_some, hlast, if_neg Bool.false_ne_true]
  rfl

theorem serializePath_apart (hattr : TypeAttributes runtime) {path other : JsString}
    (h : ¬ other.splitOn 0x2E <+: path.splitOn 0x2E) (m n : ℤ) :
    serializePath runtime config (chainRoot (path.splitOn 0x2E) m) other
      = serializePath runtime config (chainRoot (path.splitOn 0x2E) n) other := by
  have hresolve : resolveDotPath runtime.toInterpreter
      (.value (.dict (chainRoot (path.splitOn 0x2E) m))) (codePoints other)
      = resolveDotPath runtime.toInterpreter
        (.value (.dict (chainRoot (path.splitOn 0x2E) n))) (codePoints other) := by
    unfold resolveDotPath
    rw [DotPath.splitOn_codePoints, chainRoot_eq (List.splitOn_ne_nil _ _),
      chainRoot_eq (List.splitOn_ne_nil _ _), foldlM_apart hattr h m n]
  unfold serializePath
  rw [hresolve]

/-! ### What a crossing path shows -/

theorem get?_watchesOf {probe : PyProbe} {path : JsString} (hmem : path ∈ probe.watchPaths)
    (hsource : ∀ e ∈ probe.watchExpressions, e.source ≠ codePoints path)
    (members : List (JsString × Json)) :
    (watchesOf runtime config probe members).get? (codePoints path)
      = some (serializePath runtime config members path) := by
  have hfirst : ∀ (paths : List JsString) (m : JsMap PyString Sanitized),
      path ∈ paths ∨ m.get? (codePoints path) = some (serializePath runtime config members path) →
      (paths.foldl (fun watches path =>
        watches.set (codePoints path) (serializePath runtime config members path)) m).get?
          (codePoints path) = some (serializePath runtime config members path) := by
    intro paths
    induction paths with
    | nil => exact fun m hm => hm.resolve_left List.not_mem_nil
    | cons q paths ih =>
      intro m hm
      refine ih _ ?_
      by_cases hq : path = q
      · rw [hq, JsMap.get?_set, if_pos rfl]
        exact Or.inr rfl
      · have hne : codePoints path ≠ codePoints q := fun hc => hq (codePoints_injective hc)
        rw [JsMap.get?_set_of_ne hne]
        exact hm.imp_left fun hin => (List.mem_cons.mp hin).resolve_left hq
  have hsecond : ∀ (expressions : List PyExpression) (m : JsMap PyString Sanitized),
      (∀ e ∈ expressions, e.source ≠ codePoints path) →
      (expressions.foldl (fun watches expression =>
        watches.set expression.source (watchExpression runtime config members expression)) m).get?
          (codePoints path) = m.get? (codePoints path) := by
    intro expressions
    induction expressions with
    | nil => exact fun _ _ => rfl
    | cons e expressions ih =>
      intro m he
      rw [List.foldl_cons, ih _ fun e' he' => he e' (List.mem_cons_of_mem _ he'),
        JsMap.get?_set_of_ne (Ne.symm (he e List.mem_cons_self))]
  unfold watchesOf
  dsimp only
  rw [hsecond _ _ hsource]
  exact hfirst _ _ (Or.inl hmem)

/-- Texts of the same lengths, one after the other, are the same each. -/
theorem eq_of_flatMap_eq {α β : Type} {f g : α → List β} {l : List α}
    (hlength : ∀ x ∈ l, (f x).length = (g x).length) (h : l.flatMap f = l.flatMap g) :
    ∀ x ∈ l, f x = g x := by
  induction l with
  | nil => exact fun x hx => absurd hx List.not_mem_nil
  | cons y l ih =>
    rw [List.flatMap_cons, List.flatMap_cons] at h
    obtain ⟨hy, hl⟩ := List.append_inj h (hlength y List.mem_cons_self)
    intro x hx
    rcases List.mem_cons.mp hx with rfl | hx
    · exact hy
    · exact ih (fun z hz => hlength z (List.mem_cons_of_mem _ hz)) hl x hx

/-- The shortest crossing path of a template changes the message by one digit. -/
theorem renderTemplate_apart (hattr : TypeAttributes runtime) {template path : JsString}
    (hpath : .path path ∈ pieces template) (hcross : Crosses runtime config path) :
    ∃ segments : List JsString, (∃ s ∈ segments, redacts runtime config s = true) ∧
      renderTemplate runtime config template (chainRoot segments 1)
        ≠ renderTemplate runtime config template (chainRoot segments 2) := by
  obtain ⟨p, ⟨hp, hpcross⟩, hmin⟩ := WellFounded.has_min
    (measure fun q : JsString => (q.splitOn 0x2E).length).wf
    {q | .path q ∈ pieces template ∧ Crosses runtime config q} ⟨path, hpath, hcross⟩
  refine ⟨p.splitOn 0x2E, hpcross.2.1, fun hsame => ?_⟩
  have hdigit : ∀ n : ℤ, renderPiece runtime config (chainRoot (p.splitOn 0x2E) n) (.path p)
      = intText n := fun n => by
    show renderNode runtime.floatText (serializePath runtime config _ p) = _
    rw [(serializePath_chain hpcross n).2]
    rfl
  -- every other path renders alike: it crosses nothing, or it leads elsewhere
  have hother : ∀ q, .path q ∈ pieces template → q ≠ p →
      renderPiece runtime config (chainRoot (p.splitOn 0x2E) 1) (.path q)
        = renderPiece runtime config (chainRoot (p.splitOn 0x2E) 2) (.path q) := by
    intro q hq hne
    show renderNode _ (serializePath _ _ _ q) = renderNode _ (serializePath _ _ _ q)
    by_cases hqcross : Crosses runtime config q
    · have hprefix : ¬ q.splitOn 0x2E <+: p.splitOn 0x2E := by
        intro hprefix
        have hle : (p.splitOn 0x2E).length ≤ (q.splitOn 0x2E).length :=
          Nat.le_of_not_lt (hmin q ⟨hq, hqcross⟩)
        have heq := hprefix.eq_of_length_le hle
        have hjoin := congrArg [0x2E].intercalate heq
        rw [List.intercalate_splitOn, List.intercalate_splitOn] at hjoin
        exact hne hjoin
      rw [serializePath_apart hattr hprefix 1 2]
    · rw [serializePath_low hattr (lowHit_chain hpcross.2.1 1 2).captured hqcross]
  have hlength : ∀ piece ∈ pieces template,
      (renderPiece runtime config (chainRoot (p.splitOn 0x2E) 1) piece).length
        = (renderPiece runtime config (chainRoot (p.splitOn 0x2E) 2) piece).length := by
    intro piece hpiece
    cases piece with
    | text s => rfl
    | path q =>
      by_cases hq : q = p
      · rw [hq, hdigit, hdigit]
        rfl
      · rw [hother q hpiece hq]
  have heq := eq_of_flatMap_eq hlength hsame (.path p) hp
  rw [hdigit, hdigit] at heq
  exact absurd heq (by decide)

/-- The snapshot, the log or the sample that a hit leads to. -/
def Produced.shown : Produced → Option Produced
  | .snapshot captured watches stack => some (.snapshot captured watches stack)
  | .log message level => some (.log message level)
  | .sample n => some (.sample n)
  | .nothing | .counter | .error _ => none

/-- A crossing path that a probe shows tells two hits apart. -/
theorem shown_ne (hattr : TypeAttributes runtime) {probe : PyProbe}
    (hcondition : probe.condition = none) (hexpression : probe.conditionExpression = none)
    {path : JsString} (hshows : Shows probe path) (hcross : Crosses runtime config path) :
    ∃ hit hit', LowHit runtime config hit hit' ∧
      (processHit runtime config probe hit).shown ≠ (processHit runtime config probe hit').shown := by
  unfold Shows at hshows
  rcases hkind : probe.kind <;> rw [hkind] at hshows <;> dsimp only at hshows
  · refine ⟨_, _, lowHit_chain hcross.2.1 1 2, fun heq => ?_⟩
    rw [processHit_eq hcondition hexpression, processHit_eq hcondition hexpression, hkind] at heq
    have hwatches := (Produced.snapshot.inj (Option.some.inj heq)).2.1
    have hget := congrArg (fun m => m.get? (codePoints path)) hwatches
    dsimp only at hget
    rw [get?_watchesOf hshows.1 hshows.2, get?_watchesOf hshows.1 hshows.2,
      (serializePath_chain hcross 1).2, (serializePath_chain hcross 2).2] at hget
    have hint := PyNumber.int.inj (Sanitized.num.inj (Option.some.inj hget))
    omega
  · obtain ⟨segments, hredacts, hne⟩ := renderTemplate_apart hattr hshows.2 hcross
    refine ⟨_, _, lowHit_chain hredacts 1 2, fun heq => hne ?_⟩
    rw [processHit_eq hcondition hexpression, processHit_eq hcondition hexpression, hkind,
      hshows.1] at heq
    exact (Produced.log.inj (Option.some.inj heq)).1
  · obtain ⟨hmetric, rfl⟩ := hshows
    refine ⟨_, _, lowHit_chain hcross.2.1 1 2, fun heq => ?_⟩
    have hsample : ∀ n : ℤ, metricSample runtime config probe
        (chainRoot ((probe.metricPath.getD []).splitOn 0x2E) n) = .ok (.int n) := fun n => by
      unfold metricSample
      rw [hmetric]
      dsimp only
      rw [hcross.2.2, if_neg Bool.false_ne_true, (serializePath_chain hcross n).1]
      rfl
    rw [processHit_eq hcondition hexpression, processHit_eq hcondition hexpression, hkind] at heq
    dsimp only at heq
    rw [hsample, hsample] at heq
    have hint := PyNumber.int.inj (Produced.sample.inj (Option.some.inj heq))
    omega

/-- The events of two hits that differ below redacted keys are the same, if no dot path that
they show crosses a redacted key and no expression comes to one by an index; and no other dot
paths will do. -/
theorem two_hits_alike (hattr : TypeAttributes runtime) {probe : PyProbe}
    (hcondition : probe.condition = none) (hexpression : probe.conditionExpression = none) :
    ((∀ path, Shows probe path → ¬ Crosses runtime config path) →
      ∀ hit hit', ExpressionsOpen runtime config probe hit.captured → LowHit runtime config hit hit' →
        (processHit runtime config probe hit).shown = (processHit runtime config probe hit').shown) ∧
    ((∀ hit hit', LowHit runtime config hit hit' →
        (processHit runtime config probe hit).shown = (processHit runtime config probe hit').shown) →
      ∀ path, Shows probe path → ¬ Crosses runtime config path) := by
  constructor
  · intro hpaths hit hit' hopen h
    rw [processHit_low hattr hcondition hexpression hpaths hopen h]
  · intro hsame path hshows hcross
    obtain ⟨hit, hit', h, hne⟩ := shown_ne hattr hcondition hexpression hshows hcross
    exact hne (hsame hit hit' h)

end

/-! ### A password hash, and an age beside it -/

/-- An interpreter without objects of its own. -/
def asciiRuntime : Runtime Empty where
  toInterpreter := DotPath.asciiInterpreter
  objectShape := nofun
  sameObject := nofun
  floatText _ := []

theorem typeAttributes_ascii : TypeAttributes asciiRuntime := fun _ _ _ _ => rfl

def defaultLimits : SerializerLimits where
  toSerializerConfig := defaultConfig

/-- `{ password: { hash: n } }` -/
def passwordHit (n : ℤ) : RawHit where
  captured := [(js "password", .obj [(js "hash", .num n)])]
  stack := []

/-- The snapshot of one watch. -/
def watching (path : JsString) : PyProbe where
  probeId := py "prb_01ARZ3NDEKTSV4RRFFQ69G5FAV"
  kind := .snapshot
  watchPaths := [path]

theorem lowHit_password (m n : ℤ) : LowHit asciiRuntime defaultLimits (passwordHit m) (passwordHit n) where
  captured := .hidden (by decide) .nil
  stack := .nil

/-- A watch of `password.hash` shows the hash. -/
theorem passwordHash_shown :
    LowHit asciiRuntime defaultLimits (passwordHit 1) (passwordHit 2) ∧
      (processHit asciiRuntime defaultLimits (watching (js "password.hash")) (passwordHit 1)).shown
        ≠ (processHit asciiRuntime defaultLimits (watching (js "password.hash"))
          (passwordHit 2)).shown := by
  refine ⟨lowHit_password 1 2, fun heq => ?_⟩
  have hsegments : (js "password.hash").splitOn 0x2E = [js "password", js "hash"] := by decide
  have hcross : Crosses asciiRuntime defaultLimits (js "password.hash") := by
    refine ⟨⟨by decide, ?_⟩, ⟨js "password", ?_, by decide⟩, by decide⟩
    · rw [hsegments]
      decide
    · rw [hsegments]
      exact List.mem_cons_self
  have hwatch : ∀ n : ℤ, ((watchesOf asciiRuntime defaultLimits (watching (js "password.hash"))
      (passwordHit n).captured).get? (codePoints (js "password.hash"))) = some (.num (.int n)) := by
    intro n
    have hshown := (serializePath_chain hcross n).2
    rw [hsegments] at hshown
    rw [get?_watchesOf List.mem_cons_self fun _ he => absurd he List.not_mem_nil]
    exact congrArg some hshown
  rw [processHit_eq rfl rfl, processHit_eq rfl rfl] at heq
  have hwatches := (Produced.snapshot.inj (Option.some.inj heq)).2.1
  have hget := congrArg (fun m => m.get? (codePoints (js "password.hash"))) hwatches
  rw [hwatch, hwatch] at hget
  have hint := PyNumber.int.inj (Sanitized.num.inj (Option.some.inj hget))
  omega

/-- `{ user: { age: 5, password: n } }` -/
def userHit (n : ℤ) : RawHit where
  captured := [(js "user", .obj [(js "age", .num 5), (js "password", .num n)])]
  stack := []

def ageLog : PyProbe where
  probeId := py "prb_01ARZ3NDEKTSV4RRFFQ69G5FAV"
  kind := .log
  template := some (js "age ${user.age}")

/-- A log of `user.age` is the same beside every password. -/
theorem ageLog_alike :
    (processHit asciiRuntime defaultLimits ageLog (userHit 1)).shown
      = (processHit asciiRuntime defaultLimits ageLog (userHit 2)).shown := by
  refine (two_hits_alike typeAttributes_ascii rfl rfl).1 ?_ _ _ ?_ ?_
  · rintro path ⟨-, hpath⟩ ⟨-, ⟨s, hs, hredacts⟩, -⟩
    have hpieces : pieces (js "age ${user.age}")
        = [.text (js "age "), .path (js "user.age"), .text []] := by decide
    have hmem : Piece.path path ∈ pieces (js "age ${user.age}") := hpath
    rw [hpieces] at hmem
    have hage : path = js "user.age" := by simpa using hmem
    have hopen : ∀ s ∈ (js "user.age").splitOn 0x2E, redacts asciiRuntime defaultLimits s = false := by
      decide
    rw [hage] at hs
    exact Bool.noConfusion (hredacts.symm.trans (hopen s hs))
  · intro segments hsegments
    cases hsegments
  · have hmembers : LowMembers (redacts asciiRuntime defaultLimits) (userHit 1).captured
        (userHit 2).captured :=
      .shown (.obj (.shown (.num 5) (.hidden (by decide) .nil))) .nil
    exact ⟨hmembers, .nil⟩

end PythonAgent
