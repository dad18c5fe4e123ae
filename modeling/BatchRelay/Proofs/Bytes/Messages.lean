import BatchRelay.Bytes.Wire

/-!
# Messages can be taken apart

A number in groups of seven bits tells where it ends, so it is found at the front
of any bytes that begin with it.  A field begins with its number, and a field that
is left out leaves no gap: what stands in its place begins with another number, or
nothing does.  Two messages with the same numbers and kinds of fields are therefore
the same bytes only if every field holds the same.
-/

namespace BatchRelay

namespace Wire

theorem varint_of_small {number : Nat} (small : number < 128) :
    varint number = [UInt8.ofNat number] := by
  rw [varint, if_pos small]

theorem varint_of_large {number : Nat} (large : ¬number < 128) :
    varint number =
      UInt8.ofNat (number % 128 + 128) :: varint (number / 128) := by
  rw [varint, if_neg large]

theorem varint_ne_nil (number : Nat) : varint number ≠ [] := by
  rw [varint]
  split
  · exact List.cons_ne_nil _ _
  · exact List.cons_ne_nil _ _

private theorem ofNat_inj {left right : Nat} (leftByte : left < 256)
    (rightByte : right < 256) (same : UInt8.ofNat left = UInt8.ofNat right) :
    left = right := by
  have numbers := congrArg UInt8.toNat same
  rw [UInt8.toNat_ofNat', UInt8.toNat_ofNat'] at numbers
  omega

/-- A number is found at the front of what begins with it. -/
theorem varint_append_inj {left right : Nat} {leftRest rightRest : List UInt8}
    (same : varint left ++ leftRest = varint right ++ rightRest) :
    left = right ∧ leftRest = rightRest := by
  induction left using Nat.strongRecOn generalizing right with
  | _ left induction =>
      -- The high bit of the first byte tells whether more bytes follow.
      by_cases leftSmall : left < 128 <;> by_cases rightSmall : right < 128
      · rw [varint_of_small leftSmall, varint_of_small rightSmall] at same
        obtain ⟨byte, rest⟩ := List.cons.inj same
        exact ⟨ofNat_inj (by omega) (by omega) byte, rest⟩
      · rw [varint_of_small leftSmall, varint_of_large rightSmall] at same
        have byte := ofNat_inj (by omega) (by omega) (List.cons.inj same).1
        omega
      · rw [varint_of_large leftSmall, varint_of_small rightSmall] at same
        have byte := ofNat_inj (by omega) (by omega) (List.cons.inj same).1
        omega
      · rw [varint_of_large leftSmall, varint_of_large rightSmall] at same
        obtain ⟨byte, rest⟩ := List.cons.inj same
        have low := ofNat_inj (by omega) (by omega) byte
        obtain ⟨high, rests⟩ := induction (left / 128) (by omega) rest
        exact ⟨by omega, rests⟩

namespace Content

/-- The part of a field's leading number that tells what it holds. -/
def kind : Content → Nat
  | .number _ => 0
  | .bytes _ => 2

theorem kind_lt (content : Content) : content.kind < 8 := by
  cases content <;> simp [kind]

/-- Whether a field that holds this is left out. -/
def isAbsent : Content → Bool
  | .number value => value = 0
  | .bytes value => value = []

/-- The bytes of a field after its leading number. -/
def body : Content → List UInt8
  | .number value => varint value
  | .bytes value => varint value.length ++ value

variable {left right : Content}

theorem eq_of_absent (kinds : left.kind = right.kind)
    (leftAbsent : left.isAbsent = true) (rightAbsent : right.isAbsent = true) :
    left = right := by
  cases left <;> cases right <;>
    simp_all [kind, isAbsent]

/-- What a field holds is found behind its leading number. -/
theorem body_append_inj {leftRest rightRest : List UInt8}
    (kinds : left.kind = right.kind)
    (same : left.body ++ leftRest = right.body ++ rightRest) :
    left = right ∧ leftRest = rightRest := by
  cases left with
  | number left =>
      cases right with
      | number right =>
          obtain ⟨values, rests⟩ := varint_append_inj same
          exact ⟨congrArg Content.number values, rests⟩
      | bytes => cases kinds
  | bytes left =>
      cases right with
      | number => cases kinds
      | bytes right =>
          simp only [body, List.append_assoc] at same
          obtain ⟨lengths, parts⟩ := varint_append_inj same
          obtain ⟨values, rests⟩ := List.append_inj parts lengths
          exact ⟨congrArg Content.bytes values, rests⟩

end Content

theorem field_of_absent {content : Content} (absent : content.isAbsent = true)
    (index : Nat) : field index content = [] := by
  cases content <;> simp_all [Content.isAbsent, field]

theorem field_of_present {content : Content} (present : content.isAbsent = false)
    (index : Nat) :
    field index content = varint (index * 8 + content.kind) ++ content.body := by
  cases content <;>
    simp_all [Content.isAbsent, field, Content.kind, Content.body]

theorem message_cons (index : Nat) (content : Content)
    (fields : List (Nat × Content)) :
    message ((index, content) :: fields) = field index content ++ message fields :=
  rfl

/-- A message begins with the number of one of its fields. -/
theorem mem_of_message {index kind : Nat} {fields : List (Nat × Content)}
    {rest : List UInt8} (isKind : kind < 8)
    (begins : message fields = varint (index * 8 + kind) ++ rest) :
    index ∈ fields.map Prod.fst := by
  induction fields with
  | nil =>
      have nothing := (List.append_eq_nil_iff.1 begins.symm).1
      exact absurd nothing (varint_ne_nil _)
  | cons first fields induction =>
      obtain ⟨other, content⟩ := first
      rw [message_cons] at begins
      rw [List.map_cons, List.mem_cons]
      cases absent : content.isAbsent with
      | true =>
          rw [field_of_absent absent, List.nil_append] at begins
          exact .inr (induction begins)
      | false =>
          rw [field_of_present absent, List.append_assoc] at begins
          have numbers := (varint_append_inj begins).1
          have otherKind := content.kind_lt
          exact .inl (by omega)

/-- A field does not take the place of one that is left out. -/
private theorem absent_of_message {index : Nat} {content : Content}
    {fields : List (Nat × Content)} {rest : List UInt8}
    (other : index ∉ fields.map Prod.fst)
    (same : message fields = field index content ++ rest) :
    content.isAbsent = true := by
  cases absent : content.isAbsent with
  | true => rfl
  | false =>
      rw [field_of_present absent, List.append_assoc] at same
      exact absurd (mem_of_message content.kind_lt same) other

/-- The number of a field and what kind of content it holds. -/
def shape (field : Nat × Content) : Nat × Nat :=
  (field.1, field.2.kind)

/-- Messages with the same numbers and kinds of fields, each number once, differ
when their fields do. -/
theorem message_inj {left right : List (Nat × Content)}
    (shapes : left.map shape = right.map shape)
    (distinct : (left.map Prod.fst).Nodup)
    (same : message left = message right) : left = right := by
  induction left generalizing right with
  | nil => exact (List.map_eq_nil_iff.1 shapes.symm).symm
  | cons first left induction =>
      cases right with
      | nil => cases shapes
      | cons second right =>
          obtain ⟨index, content⟩ := first
          obtain ⟨other, found⟩ := second
          simp only [List.map_cons, List.cons.injEq, shape, Prod.mk.injEq]
            at shapes
          obtain ⟨⟨rfl, kinds⟩, others⟩ := shapes
          simp only [List.map_cons, List.nodup_cons] at distinct
          have numbers : left.map Prod.fst = right.map Prod.fst := by
            have firsts := congrArg (List.map Prod.fst) others
            simpa [shape, Function.comp_def] using firsts
          rw [message_cons, message_cons] at same
          have contents : content = found ∧ message left = message right := by
            cases leftAbsent : content.isAbsent with
            | true =>
                rw [field_of_absent leftAbsent, List.nil_append] at same
                have rightAbsent := absent_of_message distinct.1 same
                rw [field_of_absent rightAbsent, List.nil_append] at same
                exact ⟨Content.eq_of_absent kinds leftAbsent rightAbsent, same⟩
            | false =>
                cases rightAbsent : found.isAbsent with
                | true =>
                    rw [field_of_absent rightAbsent, List.nil_append] at same
                    have absent :=
                      absent_of_message (numbers ▸ distinct.1) same.symm
                    rw [leftAbsent] at absent
                    cases absent
                | false =>
                    rw [field_of_present leftAbsent, field_of_present rightAbsent,
                      List.append_assoc, List.append_assoc] at same
                    exact Content.body_append_inj kinds
                      (varint_append_inj same).2
          rw [contents.1, induction others distinct.2 contents.2]

end Wire

end BatchRelay
