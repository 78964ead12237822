import Calculator.Webhook
import Calculator.Proofs.JsonGrammar

namespace Calculator

/-!
What a lookup of the public address finds, in terms of the answer as it is written. An answer is of use if it
tells of success, is a document, and holds the address as a text; any other one leaves the address unknown.
-/

theorem isSuccessStatus_iff {status : Nat} : isSuccessStatus status = true ↔ 200 ≤ status ∧ status < 300 := by
  simp only [isSuccessStatus, Bool.and_eq_true, decide_eq_true_eq]

/-- Whatever comes back, there is an address. -/
theorem publicAddress_ne_empty (reply : Option Reply) : publicAddress reply ≠ "" := by
  unfold publicAddress
  simp only
  split
  · split
    · decide
    · next address _ filled =>
      rintro rfl
      exact filled rfl
  · decide

section

variable {reply : Reply}

/-- The address that is found stands in a document that came with success. -/
theorem publicAddress_found {value : JsonValue} {address : String} (success : isSuccessStatus reply.status = true)
    (document : DocumentText value reply.received) (field : value.addressField? = some (some address))
    (filled : address ≠ "") : publicAddress (some reply) = address := by
  have read := ofBytes?_eq_some_iff.mpr document
  have nonempty : ¬ address.isEmpty = true := fun empty => filled (String.isEmpty_iff.mp empty)
  simp only [publicAddress, Option.bind_eq_bind, Option.bind_some, success, if_true, read, field, if_neg nonempty]

/-- Without a document that came with success and holds an address, it stays unknown. -/
theorem publicAddress_unknown
    (useless : ∀ value address, isSuccessStatus reply.status = true → DocumentText value reply.received →
      value.addressField? = some (some address) → address = "") : publicAddress (some reply) = unknownAddress := by
  unfold publicAddress
  simp only
  split
  · next address found =>
    simp only [Option.bind_eq_bind, Option.bind_some, Option.ite_none_right_eq_some] at found
    obtain ⟨success, found⟩ := found
    obtain ⟨value, read, field⟩ := Option.bind_eq_some_iff.mp found
    have empty := useless value address success (ofBytes?_eq_some_iff.mp read) field
    rw [empty]
    rfl
  · rfl

end

/-! ### Members -/

/-- A member with the text that its name stands for. -/
def namedMember? (member : List StringUnit × JsonValue) : Option (String × JsonValue) :=
  (stringText? member.1).map (·, member.2)

theorem mapM_eq_some_iff {α β : Type} {f : α → Option β} {items : List α} {results : List β} :
    items.mapM f = some results ↔ items.map f = results.map some := by
  induction items generalizing results with
  | nil =>
    cases results with
    | nil => simp
    | cons => simp
  | cons item items ih =>
    rw [List.mapM_cons, List.map_cons]
    cases results with
    | nil => simp [Option.bind_eq_some_iff]
    | cons result results =>
      simp only [Option.bind_eq_bind, Option.bind_eq_some_iff, Option.pure_def, Option.some.injEq, List.cons.injEq,
        List.map_cons, ← ih]
      constructor
      · rintro ⟨_, first, _, others, rfl, rfl⟩
        exact ⟨first, others⟩
      · rintro ⟨first, others⟩
        exact ⟨result, first, results, others, rfl, rfl⟩

/-- Members with other names are passed over. -/
theorem named_others {members : List (List StringUnit × JsonValue)}
    (others : ∀ member ∈ members, ∃ text, Denotes member.1 text ∧ text ≠ "ip") :
    ∃ named : List (String × JsonValue), members.mapM namedMember? = some named ∧
      named.filter (·.1 == "ip") = [] := by
  induction members with
  | nil => exact ⟨[], rfl, rfl⟩
  | cons member members ih =>
    obtain ⟨text, denotes, other⟩ := others member (List.mem_cons_self ..)
    obtain ⟨named, all, none⟩ := ih fun member inside => others member (List.mem_cons_of_mem _ inside)
    refine ⟨(text, member.2) :: named, ?_, ?_⟩
    · rw [List.mapM_cons, namedMember?, denotes.stringText?, all]
      rfl
    · rw [List.filter_cons_of_neg (by simpa using other), none]

theorem addressField?_of_member {before after : List (List StringUnit × JsonValue)} {name content : List StringUnit}
    {address : String} (named : Denotes name "ip")
    (others : ∀ member ∈ before ++ after, ∃ text, Denotes member.1 text ∧ text ≠ "ip")
    (denotes : Denotes content address) :
    (JsonValue.object (before ++ (name, .string content) :: after)).addressField? = some (some address) := by
  obtain ⟨first, readFirst, noneFirst⟩ := named_others fun member inside =>
    others member (List.mem_append_left _ inside)
  obtain ⟨last, readLast, noneLast⟩ := named_others fun member inside =>
    others member (List.mem_append_right _ inside)
  have read : (before ++ (name, .string content) :: after).mapM namedMember? =
      some (first ++ ("ip", .string content) :: last) := by
    rw [mapM_eq_some_iff] at readFirst readLast ⊢
    rw [List.map_append, List.map_cons, List.map_append, List.map_cons, readFirst, readLast, namedMember?,
      named.stringText?]
    rfl
  have only : (first ++ ("ip", JsonValue.string content) :: last).filter (·.1 == "ip") = [("ip", .string content)] := by
    rw [List.filter_append, List.filter_cons_of_pos (by rfl), noneFirst, noneLast]
    rfl
  change ((before ++ (name, .string content) :: after).mapM namedMember?).bind _ = _
  rw [read, Option.bind_some]
  simp only [only, JsonValue.address?, denotes.stringText?, Option.map_some]

/-- An address comes from the only member of its name, while all names are texts. -/
theorem member_of_addressField? {members : List (List StringUnit × JsonValue)} {address : String}
    (field : (JsonValue.object members).addressField? = some (some address)) :
    ∃ content, stringText? content = some address ∧ (∃ member ∈ members, stringText? member.1 = some "ip") ∧
      ∀ member ∈ members, ∃ text, stringText? member.1 = some text ∧ (text = "ip" → member.2 = .string content) := by
  obtain ⟨named, read, field⟩ := Option.bind_eq_some_iff.mp field
  have same : members.map namedMember? = named.map some := mapM_eq_some_iff.mp read
  split at field
  · cases field
  · next name value only =>
    have only : named.filter (·.1 == "ip") = [(name, value)] := only
    cases value with
    | null | bool | number | array | object => cases field
    | string content =>
      obtain ⟨text, denotes, found⟩ := Option.map_eq_some_iff.mp field
      cases found
      have listed : (name, JsonValue.string content) ∈ named.filter (·.1 == "ip") := by
        rw [only]
        exact List.mem_singleton_self _
      obtain ⟨inside, called⟩ := List.mem_filter.mp listed
      refine ⟨content, denotes, ?_, fun member present => ?_⟩
      · have image : some (name, JsonValue.string content) ∈ members.map namedMember? := by
          rw [same]
          exact List.mem_map_of_mem inside
        obtain ⟨member, present, named⟩ := List.mem_map.mp image
        obtain ⟨text, read, pair⟩ := Option.map_eq_some_iff.mp named
        obtain ⟨rfl, _⟩ := Prod.mk.inj pair
        exact ⟨member, present, read.trans (congrArg some (eq_of_beq called))⟩
      · have image : namedMember? member ∈ named.map some := by
          rw [← same]
          exact List.mem_map_of_mem present
        obtain ⟨pair, held, equal⟩ := List.mem_map.mp image
        obtain ⟨text, read, rfl⟩ := Option.map_eq_some_iff.mp equal.symm
        refine ⟨text, read, fun called => ?_⟩
        have also : (text, member.2) ∈ named.filter (·.1 == "ip") := List.mem_filter.mpr ⟨held, beq_iff_eq.mpr called⟩
        rw [only] at also
        exact (Prod.mk.inj (List.mem_singleton.mp also)).2
  · cases field

/-! ### Names and values as they are written -/

theorem Listed.parts {α : Type} {Part : α → List UInt8 → Prop} {parts : List α} {text : List UInt8}
    (listed : Listed Part parts text) : ∀ part ∈ parts, ∃ written, Part part written := by
  intro other member
  induction listed with
  | last written =>
    cases List.mem_singleton.mp member
    exact ⟨_, written⟩
  | more written _ _ _ ih =>
    rcases List.mem_cons.mp member with rfl | member
    · exact ⟨_, written⟩
    · exact ih member

/-- In a document names are written as strings, and so are values that are strings. -/
theorem DocumentText.spelled {members : List (List StringUnit × JsonValue)} {text : List UInt8}
    (document : DocumentText (.object members) text) : ∀ member ∈ members,
      (∃ written, ContentText member.1 written) ∧
        ∀ content, member.2 = .string content → ∃ written, ContentText content written := by
  obtain ⟨_, _, _, _, valueText, _⟩ := document
  intro member present
  cases valueText with
  | emptyObject => cases present
  | object _ listed =>
    obtain ⟨_, written⟩ := listed.parts member present
    cases written with
    | named spelled _ _ value =>
      refine ⟨⟨_, spelled⟩, ?_⟩
      rintro content rfl
      cases value with
      | string inside => exact ⟨_, inside⟩

/-- The bytes of a text as they stand in a string. -/
def plainContent (text : String) : List StringUnit :=
  (encoded text.toList).map .byte

theorem denotes_plainContent (text : String) : Denotes (plainContent text) text :=
  spellsChars_encoded text.toList

theorem content_ip : ContentText (plainContent "ip") (encoded "ip".toList) :=
  contentText_plain (by decide +kernel)

theorem content_x : ContentText (plainContent "x") (encoded "x".toList) :=
  contentText_plain (by decide +kernel)

theorem other_member (value : JsonValue) :
    ∀ member ∈ [(plainContent "x", value)], ∃ text, Denotes member.1 text ∧ text ≠ "ip" := by
  intro member inside
  cases List.mem_singleton.mp inside
  exact ⟨"x", denotes_plainContent "x", by decide⟩

theorem blanks_nil : Blanks [] := by
  intro b member
  cases member

/-- The members of an object leave no address: none is called `ip`, or one is that holds no text but the empty one,
or the name of one stands for no text. -/
def WithoutAddress (members : List (List StringUnit × JsonValue)) : Prop :=
  (∀ member ∈ members, ¬ Denotes member.1 "ip") ∨
    (∃ member ∈ members, Denotes member.1 "ip" ∧
      ∀ content text, member.2 = .string content → Denotes content text → text = "") ∨
    ∃ member ∈ members, ∀ text, ¬ Denotes member.1 text

theorem WithoutAddress.empty {members : List (List StringUnit × JsonValue)} {text : List UInt8} {address : String}
    (without : WithoutAddress members) (document : DocumentText (.object members) text)
    (field : (JsonValue.object members).addressField? = some (some address)) : address = "" := by
  obtain ⟨content, denotes, ⟨called, present, name⟩, all⟩ := member_of_addressField? field
  rcases without with nameless | ⟨member, inside, named, useless⟩ | ⟨member, inside, unreadable⟩
  · obtain ⟨⟨_, spelled⟩, _⟩ := document.spelled called present
    exact absurd ((stringText?_eq_some_iff spelled).mp name) (nameless called present)
  · obtain ⟨found, read, value⟩ := all member inside
    have value := value (Option.some.inj (read.symm.trans named.stringText?))
    obtain ⟨_, spelled⟩ := (document.spelled member inside).2 content value
    exact useless content address value ((stringText?_eq_some_iff spelled).mp denotes)
  · obtain ⟨found, read, _⟩ := all member inside
    obtain ⟨⟨_, spelled⟩, _⟩ := document.spelled member inside
    exact absurd ((stringText?_eq_some_iff spelled).mp read) (unreadable found)

theorem publicAddress_without {reply : Reply} {members : List (List StringUnit × JsonValue)}
    (document : DocumentText (.object members) reply.received) (without : WithoutAddress members) :
    publicAddress (some reply) = unknownAddress := by
  refine publicAddress_unknown fun value address _ other field => ?_
  have same : some value = some (.object members) :=
    (ofBytes?_eq_some_iff.mpr other).symm.trans (ofBytes?_eq_some_iff.mpr document)
  cases same
  exact without.empty document field

/-- A lookup always comes to an address. It is the text of the member `ip` where the answer tells of success and is
an object in which only this member is called so and all names are texts. It is unknown without an answer, without
success, where the answer is no document, and where an object leaves no address. -/
theorem publicAddress_law :
    (∀ reply, publicAddress reply ≠ "") ∧
    (∀ reply before after name content address, 200 ≤ reply.status → reply.status < 300 →
      DocumentText (.object (before ++ (name, .string content) :: after)) reply.received →
      Denotes name "ip" → (∀ member ∈ before ++ after, ∃ text, Denotes member.1 text ∧ text ≠ "ip") →
      Denotes content address → address ≠ "" → publicAddress (some reply) = address) ∧
    publicAddress none = "0.0.0.0" ∧
    (∀ reply, ¬ (200 ≤ reply.status ∧ reply.status < 300) → publicAddress (some reply) = "0.0.0.0") ∧
    (∀ reply, (∀ value, ¬ DocumentText value reply.received) → publicAddress (some reply) = "0.0.0.0") ∧
    (∀ reply members, DocumentText (.object members) reply.received → WithoutAddress members →
      publicAddress (some reply) = "0.0.0.0") := by
  refine ⟨publicAddress_ne_empty, ?_, rfl, ?_, ?_, ?_⟩
  · intro reply before after name content address least most document named others denotes filled
    have success := isSuccessStatus_iff.mpr ⟨least, most⟩
    exact publicAddress_found success document (addressField?_of_member named others denotes) filled
  · intro reply failure
    exact publicAddress_unknown fun value address success => absurd (isSuccessStatus_iff.mp success) failure
  · intro reply none
    exact publicAddress_unknown fun value address _ document => absurd document (none value)
  · intro reply members document without
    exact publicAddress_without document without

/-- A text spelled with a byte, an escaped point and an escaped surrogate pair. -/
def escapedAddress : List StringUnit :=
  [.byte 0x31, .code 0x2e, .code 0xd83c, .code 0xdf89]

/-- An answer whose last member is `escapedAddress`. -/
def escapedAnswer : List UInt8 :=
  encoded " \x7b\"x\":[null], \"ip\": \"1\\u002e\\uD83C\\udf89\"\x7d".toList

/-- An answer whose address is null. -/
def nullAnswer : List UInt8 :=
  encoded "\x7b\"ip\":null\x7d".toList

theorem publicAddress_law_escaped :
    DocumentText (.object [(plainContent "x", .array [.null]), (plainContent "ip", .string escapedAddress)])
        escapedAnswer ∧
      publicAddress (some ⟨200, escapedAnswer⟩) = "1.🎉" ∧
      publicAddress (some ⟨500, escapedAnswer⟩) = "0.0.0.0" ∧
      publicAddress (some ⟨204, escapedAnswer⟩) = "0.0.0.0" ∧
      DocumentText (.object [(plainContent "ip", .null)]) nullAnswer ∧
      publicAddress (some ⟨200, nullAnswer⟩) = "0.0.0.0" := by
  have point : HexCode 0x30 0x30 0x32 0x65 0x2e := hexCode?_eq_some_iff.mp rfl
  have high : HexCode 0x44 0x38 0x33 0x43 0xd83c := hexCode?_eq_some_iff.mp rfl
  have low : HexCode 0x64 0x66 0x38 0x39 0xdf89 := hexCode?_eq_some_iff.mp rfl
  have spelled : ContentText escapedAddress _ :=
    .plain (by decide) (by decide) (by decide) (.code point (.code high (.code low .nil)))
  have denotes : Denotes escapedAddress "1.🎉" :=
    .bytes '1' (.code '.' (.pair (by decide) (by decide) (by decide) (by decide) (by decide) .nil))
  have space : Blanks [0x20] := by
    intro b member
    cases List.mem_singleton.mp member
    rfl
  have first : MemberText (plainContent "x", .array [.null]) _ :=
    .named content_x blanks_nil blanks_nil (.array blanks_nil (.last .null blanks_nil))
  have second : MemberText (plainContent "ip", .string escapedAddress) _ :=
    .named content_ip blanks_nil space (.string spelled)
  have document : DocumentText (.object [_, _]) escapedAnswer :=
    ⟨_, _, [], space, .object blanks_nil (.more first blanks_nil space (.last second blanks_nil)), blanks_nil, rfl⟩
  have null : MemberText (plainContent "ip", .null) _ :=
    .named content_ip blanks_nil blanks_nil .null
  have nullDocument : DocumentText (.object [_]) nullAnswer :=
    ⟨[], _, [], blanks_nil, .object blanks_nil (.last null blanks_nil), blanks_nil, rfl⟩
  refine ⟨document, ?_, ?_, ?_, nullDocument, ?_⟩
  · exact publicAddress_law.2.1 ⟨200, _⟩ [_] [] _ _ _ (by decide) (by decide) document (denotes_plainContent "ip")
      (other_member _) denotes (by decide)
  · exact publicAddress_law.2.2.2.1 ⟨500, _⟩ (by decide)
  · refine publicAddress_law.2.2.2.2.1 ⟨204, _⟩ fun value document => ?_
    -- No body comes with this status, and nothing is no document.
    cases ofBytes?_eq_some_iff.mpr document
  · refine publicAddress_law.2.2.2.2.2 ⟨200, _⟩ _ nullDocument (.inr (.inl ⟨_, List.mem_singleton_self _,
      denotes_plainContent "ip", ?_⟩))
    intro content text same
    cases same

/-! ### Skipped members -/

/-- A document that is UTF-8 as a whole. -/
def IsJson (text : List UInt8) : Prop :=
  (∃ value, DocumentText value text) ∧ ∃ chars, text = encoded chars

/-- An object in which a member follows the address `1.2.3.4`. -/
theorem document_of_second {name text : List UInt8} {content : List StringUnit} {value : JsonValue}
    (spelled : ContentText content name) (written : ValueText value text) :
    DocumentText (.object [(plainContent "ip", .string (plainContent "1.2.3.4")), (content, value)])
      (encoded "\x7b\"ip\":\"1.2.3.4\",\"".toList ++ (name ++ (encoded "\":".toList ++ (text ++ [0x7d])))) := by
  have first : MemberText (plainContent "ip", .string (plainContent "1.2.3.4")) _ :=
    .named content_ip blanks_nil blanks_nil (.string (contentText_plain (by decide +kernel)))
  have second : MemberText (content, value) _ := .named spelled blanks_nil blanks_nil written
  refine ⟨[], _, [], blanks_nil,
    .object blanks_nil (.more first blanks_nil blanks_nil (.last second blanks_nil)), blanks_nil, ?_⟩
  simp only [List.append_nil, List.nil_append, List.append_assoc, List.cons_append]
  rfl

/-- An address, then a member whose value is the byte `ff` between quotes. -/
def unreadableValue : List UInt8 :=
  encoded "\x7b\"ip\":\"1.2.3.4\",\"x\":\"".toList ++ [0xff, 0x22, 0x7d]

/-- An address, then a member whose name is the first half of a surrogate pair. -/
def unreadableName : List UInt8 :=
  encoded "\x7b\"ip\":\"1.2.3.4\",\"\\ud800\":0\x7d".toList

/-- A value that is skipped need not be UTF-8, while a name that is no text leaves the address of a document that is
JSON unknown. -/
theorem publicAddress_skipped_members :
    (¬ IsJson unreadableValue ∧ publicAddress (some ⟨200, unreadableValue⟩) = "1.2.3.4") ∧
      IsJson unreadableName ∧
      DocumentText (.object [(plainContent "ip", .string (plainContent "1.2.3.4")), ([.code 0xd800], .number)])
        unreadableName ∧
      publicAddress (some ⟨200, unreadableName⟩) = "0.0.0.0" := by
  refine ⟨⟨?_, ?_⟩, ?_⟩
  · rintro ⟨_, chars, same⟩
    obtain ⟨rest, tail⟩ := encoded_append same
    cases rest with
    | nil => cases tail
    | cons c rest =>
      obtain ⟨first, more, split, starts, _⟩ := utf8EncodeChar_split c
      rw [encoded, List.flatMap_cons, split] at tail
      obtain ⟨rfl, _⟩ := List.cons.inj tail
      exact absurd starts (by decide)
  · have value : ContentText [.byte 0xff] [0xff] := .plain (by decide) (by decide) (by decide) .nil
    have document := document_of_second content_x (.string value)
    refine publicAddress_found rfl document (?_ : (JsonValue.object ([] ++ _)).addressField? = _) (by decide)
    exact addressField?_of_member (denotes_plainContent "ip") (other_member _) (denotes_plainContent "1.2.3.4")
  · have code : HexCode 0x64 0x38 0x30 0x30 0xd800 := hexCode?_eq_some_iff.mp rfl
    have name : ContentText [.code 0xd800] _ := .code code .nil
    have zero : NumberText [0x30] := ⟨[], [0x30], [], [], .inl rfl, .inl rfl, .inl rfl, .inl rfl, rfl⟩
    have document := document_of_second name (.number zero)
    have unreadable : ∀ text, ¬ Denotes [.code 0xd800] text := by
      intro text denotes
      cases denotes.stringText?
    refine ⟨⟨⟨_, document⟩, _, rfl⟩, document, publicAddress_without document (.inr (.inr ?_))⟩
    exact ⟨([.code 0xd800], .number), List.mem_cons_of_mem _ (List.mem_singleton_self _), unreadable⟩

end Calculator
