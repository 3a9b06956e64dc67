-- SUMMARY: JSON values that are written without blanks are read back.
import Cosign.Json.Basic
import Cosign.Proofs.Json.Token
import Mathlib.Data.List.Chain

/-!
# Reading values back

A value is read from its tokens with the arrays and objects around it pending, and then
what is left of the text is read (`readValue_tokens`). No two numbers stand next to
each other in the tokens of a value, so a plain value is read back from its text
(`parse_render`).
-/

namespace Cosign.Json

/-! ## Values and their tokens -/

/-- What holds of a value if it holds of the values in it holds of all. -/
theorem induction {P : Json → Prop} (null : P null) (bool : ∀ value, P (bool value))
    (number : ∀ value, P (number value)) (string : ∀ value, P (string value))
    (array : ∀ items, (∀ item ∈ items, P item) → P (array items))
    (object : ∀ members, (∀ member ∈ members, P member.2) → P (object members)) :
    ∀ value, P value
  | .null => null
  | .bool value => bool value
  | .number value => number value
  | .string value => string value
  | .array items => array items fun item _ =>
      induction null bool number string array object item
  | .object members => object members fun member _ =>
      induction null bool number string array object member.2
termination_by value => sizeOf value
decreasing_by
  · next hitem =>
    have hlt := List.sizeOf_lt_of_mem hitem
    simp only [Json.array.sizeOf_spec]
    omega
  · next hmember =>
    have hlt := List.sizeOf_lt_of_mem hmember
    have hvalue : sizeOf member.2 < sizeOf member := by
      cases member
      simp only [Prod.mk.sizeOf_spec]
      omega
    simp only [Json.object.sizeOf_spec]
    omega

theorem itemTokens_eq_map (items : List Json) : itemTokens items = items.map tokens := by
  induction items with
  | nil => rfl
  | cons item rest ih => simp [itemTokens, ih]

/-- The tokens of a member of an object. -/
def tokensOfMember (member : Literal × Json) : List Token :=
  .string member.1 :: .colon :: tokens member.2

theorem memberTokens_eq_map (members : List (Literal × Json)) :
    memberTokens members = members.map tokensOfMember := by
  induction members with
  | nil => rfl
  | cons member rest ih => simp [memberTokens, tokensOfMember, ih]

theorem separated_cons (item : List Token) (rest : List (List Token)) :
    separated (item :: rest) = item ++ rest.flatMap (.comma :: ·) := by
  induction rest generalizing item with
  | nil => simp [separated]
  | cons next rest ih => simp [separated, ih]

/-- What is put between the items is commas. -/
theorem mem_separated {items : List (List Token)} {token : Token} (h : token ∈ separated items) :
    token = .comma ∨ ∃ item ∈ items, token ∈ item := by
  cases items with
  | nil => cases h
  | cons item rest =>
      simp only [separated_cons, List.mem_append, List.mem_flatMap, List.mem_cons] at h
      rcases h with h | ⟨other, hother, rfl | h⟩
      · exact .inr ⟨item, List.mem_cons_self, h⟩
      · exact .inl rfl
      · exact .inr ⟨other, List.mem_cons_of_mem _ hother, h⟩

/-- No value begins with the end of an array. -/
theorem head?_tokens_ne (value : Json) (rest : List Token) :
    (value.tokens ++ rest).head? ≠ some .closeArray := by
  cases value <;> simp [tokens]

/-! ## Spacing -/

/-- Anything else than a number keeps numbers apart. -/
theorem spaced_append_cons (front : List Token) {back : List Token} {token : Token}
    (hfront : Token.Spaced front) (hback : Token.Spaced back) (htoken : token.isNumber = false) :
    Token.Spaced (front ++ token :: back) := by
  refine List.isChain_append.2 ⟨hfront, ?_, fun other _ next hnext _ => ?_⟩
  · refine List.isChain_cons.2 ⟨fun _ _ hnumber => ?_, hback⟩
    cases htoken.symm.trans hnumber
  · cases hnext
    exact htoken

theorem spaced_separated {items : List (List Token)} (h : ∀ item ∈ items, Token.Spaced item) :
    Token.Spaced (separated items) := by
  induction items with
  | nil => exact .nil
  | cons item rest ih =>
      rw [List.forall_mem_cons] at h
      cases rest with
      | nil => exact h.1
      | cons next rest => exact spaced_append_cons item h.1 (ih h.2) rfl

theorem spaced_tokens (value : Json) : Token.Spaced value.tokens := by
  induction value using induction with
  | null | bool | number | string => exact .singleton _
  | array items ih =>
      rw [tokens, itemTokens_eq_map]
      exact spaced_append_cons (.openArray :: _)
        (spaced_append_cons [] .nil (spaced_separated (by simpa using ih)) rfl) .nil rfl
  | object members ih =>
      rw [tokens, memberTokens_eq_map]
      refine spaced_append_cons (.openObject :: _)
        (spaced_append_cons [] .nil (spaced_separated ?_) rfl) .nil rfl
      simp only [List.forall_mem_map]
      intro member hmember
      exact spaced_append_cons [_] (.singleton _) (ih member hmember) rfl

/-! ## Reading -/

/-- A value is read, whatever it stands in and whatever follows it. -/
def ReadsBack (value : Json) : Prop :=
  ∀ around rest, readValue around (value.tokens ++ rest) = readRest around value rest

theorem readValue_openArray (around : List Pending) {tokens : List Token}
    (h : tokens.head? ≠ some .closeArray) :
    readValue around (.openArray :: tokens) = readValue (.array [] :: around) tokens := by
  cases tokens with
  | nil => simp [readValue]
  | cons token tokens =>
      have hne : token ≠ .closeArray := by simpa using h
      simp [readValue, hne]

/-- After an item of an array the others are read up to its end. -/
theorem readRest_items {items : List Json} (h : ∀ item ∈ items, ReadsBack item)
    (item : Json) (met : List Json) (around : List Pending) (rest : List Token) :
    readRest (.array met :: around) item
        ((items.map tokens).flatMap (.comma :: ·) ++ .closeArray :: rest) =
      readRest around (array (met.reverse ++ item :: items)) rest := by
  induction items generalizing item met with
  | nil => simp [readRest]
  | cons next items ih =>
      rw [List.forall_mem_cons] at h
      simp only [List.map_cons, List.flatMap_cons, List.cons_append, List.append_assoc, readRest]
      rw [h.1, ih h.2]
      simp

/-- After a member of an object the others are read up to its end. -/
theorem readRest_members {members : List (Literal × Json)}
    (h : ∀ member ∈ members, ReadsBack member.2) (name : Literal) (value : Json)
    (met : List (Literal × Json)) (around : List Pending) (rest : List Token) :
    readRest (.object met name :: around) value
        ((members.map tokensOfMember).flatMap (.comma :: ·) ++ .closeObject :: rest) =
      readRest around (object (met.reverse ++ (name, value) :: members)) rest := by
  induction members generalizing name value met with
  | nil => simp [readRest]
  | cons next members ih =>
      rw [List.forall_mem_cons] at h
      simp only [List.map_cons, List.flatMap_cons, List.cons_append, List.append_assoc,
        tokensOfMember, readRest]
      rw [h.1]
      refine (ih h.2 next.1 next.2 _).trans ?_
      simp

theorem readsBack (value : Json) : ReadsBack value := by
  induction value using induction with
  | null | bool | number | string =>
      intro around rest
      simp [tokens, readValue]
  | array items ih =>
      intro around rest
      rw [tokens, itemTokens_eq_map]
      cases items with
      | nil => simp [separated, readValue]
      | cons item items =>
          rw [List.forall_mem_cons] at ih
          simp only [List.map_cons, separated_cons, List.cons_append, List.append_assoc]
          rw [readValue_openArray around (head?_tokens_ne _ _), ih.1]
          exact readRest_items ih.2 item [] around rest
  | object members ih =>
      intro around rest
      rw [tokens, memberTokens_eq_map]
      cases members with
      | nil => simp [separated, readValue]
      | cons member members =>
          rw [List.forall_mem_cons] at ih
          simp only [List.map_cons, separated_cons, tokensOfMember, List.cons_append,
            List.append_assoc, readValue]
          rw [ih.1]
          exact readRest_members ih.2 member.1 member.2 [] around rest

theorem ofTokens?_tokens (value : Json) : ofTokens? value.tokens = some value := by
  have hread := readsBack value [] []
  rw [List.append_nil] at hread
  unfold ofTokens?
  rw [hread, readRest]

/-! ## Plain values -/

/-- A value of integers and texts. -/
def IsPlain (value : Json) : Prop := ∀ token ∈ value.tokens, token.IsPlain

namespace IsPlain

theorem null : IsPlain null := by simp [IsPlain, tokens, Token.IsPlain]

theorem bool (value : Bool) : IsPlain (bool value) := by simp [IsPlain, tokens, Token.IsPlain]

theorem ofNat (value : Nat) : IsPlain (ofNat value) := by
  simp [IsPlain, Json.ofNat, tokens, Token.IsPlain]

theorem ofString (value : String) : IsPlain (ofString value) := by
  simp [IsPlain, Json.ofString, tokens, Token.IsPlain]

theorem separated {items : List (List Token)} (h : ∀ item ∈ items, ∀ token ∈ item, token.IsPlain) :
    ∀ token ∈ separated items, token.IsPlain := by
  intro token htoken
  rcases mem_separated htoken with rfl | ⟨item, hitem, hmem⟩
  · trivial
  · exact h item hitem token hmem

theorem array {items : List Json} (h : ∀ item ∈ items, item.IsPlain) : IsPlain (array items) := by
  have hitems : ∀ token ∈ Json.separated (items.map tokens), token.IsPlain :=
    separated (List.forall_mem_map.2 h)
  intro token htoken
  rw [tokens, itemTokens_eq_map] at htoken
  simp only [List.cons_append, List.mem_cons, List.mem_append, List.not_mem_nil, or_false] at htoken
  rcases htoken with rfl | htoken | rfl
  · trivial
  · exact hitems token htoken
  · trivial

theorem record {members : List (String × Json)} (h : ∀ member ∈ members, member.2.IsPlain) :
    IsPlain (record members) := by
  have hmembers : ∀ token ∈ Json.separated ((members.map fun member =>
      (some member.1, member.2)).map tokensOfMember), token.IsPlain := by
    refine separated (List.forall_mem_map.2 (List.forall_mem_map.2 fun member hmember => ?_))
    rw [tokensOfMember, List.forall_mem_cons, List.forall_mem_cons]
    exact ⟨⟨member.1, rfl⟩, trivial, h member hmember⟩
  intro token htoken
  rw [Json.record, tokens, memberTokens_eq_map] at htoken
  simp only [List.cons_append, List.mem_cons, List.mem_append, List.not_mem_nil, or_false] at htoken
  rcases htoken with rfl | htoken | rfl
  · trivial
  · exact hmembers token htoken
  · trivial

end IsPlain

/-- A plain value is read back from its text. -/
theorem parse_render {value : Json} (h : value.IsPlain) : parse value.render = some value := by
  unfold parse render
  rw [String.toList_ofList, Token.scan_text h (spaced_tokens value)]
  exact ofTokens?_tokens value

end Cosign.Json
