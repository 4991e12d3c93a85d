import RegisterMigration.Proofs.Definition.Canonical

/-!
# The layout of the canonical text

The canonical form of a definition is a JSON value, and its text is whatever the compact layout
makes of that.  Here the text is laid out by itself, member by member, as a reader of the format
would write it down: the members of a record in the order of its fields, lists in brackets, a
comma between each two, and no blank anywhere.  An address space always has a member that says
whether it is the default one; a register has a member that says that it is the context register
only if it is.

Strings are the only place where this layout could be ambiguous.  A character in a string stands
for itself unless the format forbids it there, and then it is written with a backslash, which
never stands for itself.

## Main results

* `Json.compactChars_array`, `Json.compactChars_object` — lists and records in compact layout.
* `Json.escapeChar_of_not_mustEscape`, `Json.exists_escapeChar_of_mustEscape` — what is escaped.
* `Definition.compactChars_toJson` — the canonical form has the canonical text.
* `Definition.canonicalBytes_eq_iff` — the bytes of that text identify the definition.
-/

namespace RegisterMigration

namespace Json

/-! ## Strings -/

/-- The characters that a string in quotes may not hold as they are. -/
def MustEscape (c : Char) : Prop :=
  c = '"' ∨ c = '\\' ∨ c.toNat < 0x20

theorem escapeChar_of_not_mustEscape {c : Char} (h : ¬ MustEscape c) : escapeChar c = [c] := by
  obtain ⟨hquote, hrest⟩ := not_or.1 h
  obtain ⟨hbackslash, hcontrol⟩ := not_or.1 hrest
  have hne : ∀ n < 0x20, c.toNat ≠ n := by
    intro n hn
    omega
  rw [escapeChar, if_neg hquote, if_neg hbackslash, if_neg (hne 0x08 (by decide)),
    if_neg (hne 0x09 (by decide)), if_neg (hne 0x0a (by decide)), if_neg (hne 0x0c (by decide)),
    if_neg (hne 0x0d (by decide)), if_neg hcontrol]

theorem exists_escapeChar_of_mustEscape {c : Char} (h : MustEscape c) :
    ∃ d ds, escapeChar c = '\\' :: d :: ds := by
  rcases h with rfl | rfl | hcontrol
  · exact ⟨_, _, rfl⟩
  · exact ⟨_, _, rfl⟩
  · unfold escapeChar
    split_ifs <;> exact ⟨_, _, rfl⟩

/-! ## Values -/

/-- A flag as it is written. -/
def flagText (b : Bool) : List Char :=
  (if b then "true" else "false").toList

/-- A number as it is written: in decimal, with no zero in front. -/
def numberText (n : Nat) : List Char :=
  Nat.toDigits 10 n

/-- The text of a list. -/
def brackets (items : List (List Char)) : List Char :=
  '[' :: [','].intercalate items ++ [']']

/-- The text of a record. -/
def braces (members : List (List Char)) : List Char :=
  '\x7b' :: [','].intercalate members ++ ['\x7d']

/-- A member of a record: its key and the text of its value. -/
def member (key : String) (text : List Char) : List Char :=
  quote key ++ ':' :: text

theorem compactItems_eq_intercalate (vs : List Json) :
    compactItems vs = [','].intercalate (vs.map compactChars) := by
  induction vs with
  | nil => rfl
  | cons v vs ih =>
      cases vs with
      | nil => rw [List.map_singleton, List.intercalate_singleton, compactItems]
      | cons w ws =>
          rw [compactItems, ih, List.map_cons, List.map_cons, List.map_cons,
            List.intercalate_cons_cons, List.append_assoc, List.singleton_append]
          simp

theorem compactFields_eq_intercalate (fs : List (String × Json)) :
    compactFields fs = [','].intercalate (fs.map fun f => member f.1 (compactChars f.2)) := by
  induction fs with
  | nil => rfl
  | cons f fs ih =>
      cases fs with
      | nil => rw [List.map_singleton, List.intercalate_singleton, compactFields, member]
      | cons g gs =>
          rw [compactFields, ih, List.map_cons, List.map_cons, List.map_cons,
            List.intercalate_cons_cons]
          · simp [member]
          · simp

@[simp] theorem compactChars_bool (b : Bool) : compactChars (.bool b) = flagText b := by
  rw [compactChars, flagText]

@[simp] theorem compactChars_number (n : Nat) : compactChars (.number n) = numberText n := by
  rw [compactChars, numberText]

@[simp] theorem compactChars_string (s : String) : compactChars (.string s) = quote s := by
  rw [compactChars]

@[simp] theorem compactChars_array (vs : List Json) :
    compactChars (.array vs) = brackets (vs.map compactChars) := by
  rw [compactChars, compactItems_eq_intercalate, brackets]

@[simp] theorem compactChars_object (fs : List (String × Json)) :
    compactChars (.object fs) = braces (fs.map fun f => member f.1 (compactChars f.2)) := by
  rw [compactChars, compactFields_eq_intercalate, braces]

end Json

open Json

/-! ## The parts of a definition -/

/-- The canonical text of a compiler specification: its id and its name. -/
def CompilerSpec.canonicalText (c : CompilerSpec) : List Char :=
  braces [member "id" (quote c.id), member "name" (quote c.name)]

/-- The canonical text of a space, which always says whether it is the default. -/
def AddressSpace.canonicalText (s : AddressSpace) : List Char :=
  braces
    [member "name" (quote s.name),
     member "kind" (quote s.kind.name),
     member "size" (numberText s.size.toNat),
     member "default" (flagText s.isDefault)]

/-- The canonical text of a register, which says that it is a context register only if it is one. -/
def RegisterDecl.canonicalText (r : RegisterDecl) : List Char :=
  braces <|
    [member "name" (quote r.name),
     member "space" (quote r.space),
     member "offset" (numberText r.offset.toNat),
     member "bit-size" (numberText r.bitSize.toNat)]
    ++ if r.context then [member "context" (flagText true)] else []

/-- The canonical text of a field: its name, and both ends of its range. -/
def ContextField.canonicalText (f : ContextField) : List Char :=
  braces
    [member "name" (quote f.name),
     member "range"
      (brackets [numberText f.range.lo.toNat, numberText f.range.hi.toNat])]

theorem CompilerSpec.compactChars_toJson (c : CompilerSpec) :
    compactChars c.toJson = c.canonicalText := by
  simp [toJson, canonicalText]

theorem AddressSpace.compactChars_toJson (s : AddressSpace) :
    compactChars s.toJson = s.canonicalText := by
  simp [toJson, canonicalText]

theorem RegisterDecl.compactChars_toJson (r : RegisterDecl) :
    compactChars r.toJson = r.canonicalText := by
  cases hcontext : r.context <;> simp [toJson, canonicalText, hcontext]

/-- A quote in a name does not end the string, and the flag of the context register stands last. -/
example :
    RegisterDecl.canonicalText
        { name := "a\"b", space := "ram", offset := 4, bitSize := 8, context := true } =
      ("\x7b\"name\":\"a\\\"b\",\"space\":\"ram\"," ++
        "\"offset\":4,\"bit-size\":8,\"context\":true\x7d").toList := by
  decide

theorem ContextField.compactChars_toJson (f : ContextField) :
    compactChars f.toJson = f.canonicalText := by
  simp [toJson, canonicalText]

/-! ## Definitions -/

namespace Definition

/-- The text that a definition's fingerprint is taken of. -/
def canonicalText (d : Definition) : List Char :=
  braces
    [member "id" (quote d.id),
     member "processor" (quote d.processor),
     member "endianness" (quote d.endianness.name),
     member "version" (quote (toString d.version)),
     member "default-compiler-spec" (quote d.defaultCompilerSpec),
     member "compiler-spec" (brackets (d.compilerSpecs.map CompilerSpec.canonicalText)),
     member "space" (brackets (d.spaces.map AddressSpace.canonicalText)),
     member "register" (brackets (d.registers.map RegisterDecl.canonicalText)),
     member "context-field" (brackets (d.contextFields.map ContextField.canonicalText))]

/-- The canonical form has the canonical text. -/
theorem compactChars_toJson (d : Definition) : compactChars d.toJson = d.canonicalText := by
  have hspecs : compactChars ∘ CompilerSpec.toJson = CompilerSpec.canonicalText :=
    funext CompilerSpec.compactChars_toJson
  have hspaces : compactChars ∘ AddressSpace.toJson = AddressSpace.canonicalText :=
    funext AddressSpace.compactChars_toJson
  have hregisters : compactChars ∘ RegisterDecl.toJson = RegisterDecl.canonicalText :=
    funext RegisterDecl.compactChars_toJson
  have hfields : compactChars ∘ ContextField.toJson = ContextField.canonicalText :=
    funext ContextField.compactChars_toJson
  simp [toJson, canonicalText, hspecs, hspaces, hregisters, hfields]

/-- The bytes that are hashed are those of the canonical text, in which a character of a string is
escaped exactly if the format asks for it, and they identify the definition. -/
theorem canonicalBytes_eq_iff (a b : Definition) :
    (a.canonicalBytes = b.canonicalBytes ↔ a = b) ∧
      a.canonicalBytes = (String.ofList a.canonicalText).toUTF8.toList ∧
      (∀ s : String, quote s = '"' :: s.toList.flatMap escapeChar ++ ['"']) ∧
      ∀ c, (MustEscape c → ∃ d ds, escapeChar c = '\\' :: d :: ds) ∧
        (¬ MustEscape c → escapeChar c = [c]) := by
  refine ⟨canonicalBytes_injective.eq_iff, ?_, fun _ => rfl, fun c => ⟨?_, ?_⟩⟩
  · rw [canonicalBytes, compact, compactChars_toJson]
  · exact exists_escapeChar_of_mustEscape
  · exact escapeChar_of_not_mustEscape

end Definition

end RegisterMigration
