import AutoDoc.Host.Interpreter
import AutoDoc.Host.Script
import AutoDoc.Outline.Fixed
import AutoDoc.Proofs.Element.Codec
import AutoDoc.Proofs.Json.Printable

/-!
# Records lose nothing in their values

An outline is read back from the value it is written as (`ofJson?_toJson`), whatever null fields are
left out and whatever else is put in (`keeps_outline`). It survives printing too, so that an
interpreter that prints an outline reports it. With the same facts about elements this comes to
`codecs_lossless`.
-/

namespace AutoDoc

open Json

namespace Outline

@[simp] theorem nullable_lineJson (o : Option UInt32) :
    nullable word32? (ofOption lineJson o) = some o :=
  nullable_ofOption (fun _ => nofun) fun n _ => word32?_nat n

theorem Variable.ofJson?_toJson (v : Variable) : Variable.ofJson? v.toJson = some v := by
  rw [ofJson?, toJson, record?_of_fields (by rfl) (by decide)]
  simp [-Option.bind_some, Option.bind_eq_some_iff, Json.optional, defaulted]

theorem Parameter.ofJson?_toJson (p : Parameter) : Parameter.ofJson? p.toJson = some p := by
  rw [ofJson?, toJson, record?_of_fields (by rfl) (by decide)]
  simp [-Option.bind_some, Option.bind_eq_some_iff, Json.optional, defaulted, lookup_cons_eq_if]

theorem Class.ofJson?_toJson (c : Class) : Class.ofJson? c.toJson = some c := by
  rw [ofJson?, toJson, record?_of_fields (by rfl) (by decide)]
  simp [-Option.bind_some, Option.bind_eq_some_iff, Json.optional, defaulted, lookup_cons_eq_if,
    nullable_list Variable.ofJson?_toJson]

theorem Function.ofJson?_toJson (f : Function) : Function.ofJson? f.toJson = some f := by
  rw [ofJson?, toJson, record?_of_fields (by rfl) (by decide)]
  simp [-Option.bind_some, Option.bind_eq_some_iff, Json.optional, defaulted, lookup_cons_eq_if,
    nullable_list Parameter.ofJson?_toJson]

theorem Exception.ofJson?_toJson (e : Exception) : Exception.ofJson? e.toJson = some e := by
  rw [ofJson?, toJson, record?_of_fields (by rfl) (by decide)]
  simp [-Option.bind_some, Option.bind_eq_some_iff, Json.optional, defaulted, lookup_cons_eq_if]

theorem ofJson?_toJson (o : Outline) : ofJson? o.toJson = some o := by
  rw [ofJson?, toJson, record?_of_fields (by rfl) (by decide)]
  simp [-Option.bind_some, -Bool.exists_bool, Option.bind_eq_some_iff, defaulted, lookup_cons_eq_if,
    list?_map Class.ofJson?_toJson, list?_map Function.ofJson?_toJson,
    list?_map Exception.ofJson?_toJson]

/-! ### Edits -/

/-- The kinds of records that an outline is made of. -/
inductive RecordKind where
  | outline
  | classDef
  | function
  | variable
  | parameter
  | exceptionUse

/-- The fields of the records and the records in them. -/
def layout : Layout RecordKind where
  fields
    | .outline => fields
    | .classDef => Class.fields
    | .function => Function.fields
    | .variable => Variable.fields
    | .parameter => Parameter.fields
    | .exceptionUse => Exception.fields
  content
    | .outline, "classes" => .records .classDef
    | .outline, "functions" => .records .function
    | .outline, "exceptions" => .records .exceptionUse
    | .classDef, "class_variables" => .records .variable
    | .classDef, "instance_variables" => .records .variable
    | .function, "parameters" => .records .parameter
    | _, _ => .plain

theorem keeps_variable : Keeps layout (.record .variable) Variable.ofJson? :=
  .record <| .bind (.optional .plain) fun _ => .pure _

theorem keeps_parameter : Keeps layout (.record .parameter) Parameter.ofJson? :=
  .record <| .bind (.optional .plain) fun _ => .bind (.optional .plain) fun _ =>
    .bind (.optional .plain) fun _ => .pure _

theorem keeps_class : Keeps layout (.record .classDef) Class.ofJson? :=
  .record <|
    .bind (.optional .plain) fun _ => .bind (.optional .plain) fun _ =>
    .bind (.optional .plain) fun _ => .bind (.optional .plain) fun _ =>
    .bind (.optional .plain) fun _ =>
    .bind (.optional keeps_variable.list) fun _ =>
    .bind (.optional keeps_variable.list) fun _ =>
    .bind (.optional .plain) fun _ => .pure _

theorem keeps_function : Keeps layout (.record .function) Function.ofJson? :=
  .record <|
    .bind (.optional .plain) fun _ => .bind (.optional .plain) fun _ =>
    .bind (.optional .plain) fun _ => .bind (.optional keeps_parameter.list) fun _ =>
    .bind (.optional .plain) fun _ => .bind (.optional .plain) fun _ =>
    .bind (.optional .plain) fun _ => .bind (.optional .plain) fun _ => .pure _

theorem keeps_exception : Keeps layout (.record .exceptionUse) Exception.ofJson? :=
  .record <| .bind (.optional .plain) fun _ => .bind (.optional .plain) fun _ =>
    .bind (.optional .plain) fun _ => .bind (.optional .plain) fun _ => .pure _

theorem keeps_outline : Keeps layout (.record .outline) ofJson? :=
  .record <|
    .bind (.defaulted _ .plain rfl) fun _ =>
    .bind (.defaulted _ keeps_class.list rfl) fun _ =>
    .bind (.defaulted _ keeps_function.list rfl) fun _ =>
    .bind (.defaulted _ keeps_exception.list rfl) fun _ => .pure _

/-! ### Printing -/

theorem Variable.printable (v : Variable) : Printable 2 v.toJson :=
  .obj_cons (.ofOption .str) .obj_nil

theorem Parameter.printable (p : Parameter) : Printable 2 p.toJson :=
  .obj_cons (.ofOption .str) <| .obj_cons (.ofOption .str) <| .obj_cons (.ofOption .str) .obj_nil

theorem Class.printable (c : Class) : Printable 4 c.toJson :=
  .obj_cons (.ofOption .str) <| .obj_cons (.ofOption .word32) <| .obj_cons (.ofOption .word32) <|
  .obj_cons (.ofOption .str) <| .obj_cons (.ofOption .texts) <|
  .obj_cons (.ofOption (.arr_map Variable.printable)) <|
  .obj_cons (.ofOption (.arr_map Variable.printable)) <| .obj_cons (.ofOption .texts) .obj_nil

theorem Function.printable (f : Function) : Printable 4 f.toJson :=
  .obj_cons (.ofOption .str) <| .obj_cons (.ofOption .word32) <| .obj_cons (.ofOption .word32) <|
  .obj_cons (.ofOption (.arr_map Parameter.printable)) <| .obj_cons (.ofOption .str) <|
  .obj_cons (.ofOption .str) <| .obj_cons (.ofOption .str) <| .obj_cons (.ofOption .texts) .obj_nil

theorem Exception.printable (e : Exception) : Printable 4 e.toJson :=
  .obj_cons (.ofOption .str) <| .obj_cons (.ofOption .str) <| .obj_cons (.ofOption .word32) <|
  .obj_cons (.ofOption .word32) .obj_nil

theorem printable (o : Outline) : Printable 6 o.toJson :=
  .obj_cons (.bool _) <| .obj_cons (.arr_map Class.printable _) <|
  .obj_cons (.arr_map Function.printable _) <| .obj_cons (.arr_map Exception.printable _) .obj_nil

/-- An interpreter that prints an outline is a parser that reports it. -/
theorem outline_of_printed (o : Outline) (stderr : String) :
    (ProgramOutput.mk 0 o.toJson.compact stderr).outline = .ok o := by
  have read : Json.parse? o.toJson.compact = some o.toJson :=
    (o.printable.mono (by decide)).parse?
  rw [ProgramOutput.outline, if_neg (by simp)]
  simp only [read, Option.bind_some, ofJson?_toJson]

end Outline

/-- Records lose nothing in their values. An element or an outline is read back from the value it
is written as, after any number of edits to its record and the records in it. An interpreter that can
be started and prints the outline of another parser is a parser with the same reply. -/
theorem codecs_lossless :
    (∀ e : Element, e.Fits → ∀ j,
      Relation.ReflTransGen (Edit Element.layout (.record .element)) e.toJson j →
        Element.ofJson? j = some e) ∧
    (∀ (o : Outline) j,
      Relation.ReflTransGen (Edit Outline.layout (.record .outline)) o.toJson j →
        Outline.ofJson? j = some o) ∧
    ∀ {π : Type} (host : Host π) (located : Located) (program : String) (other : Parser) (call : Nat)
      (source stderr : String) (o : Outline), other call source = .ok (.ok o) →
        located.launch host [] = .ok program →
          host.parse program source = ⟨0, o.toJson.compact, stderr⟩ →
            located.parser host call source = other call source := by
  refine ⟨fun e fits j edits => ?_, fun o j edits => ?_, ?_⟩
  · exact Element.keeps_element.edits edits (Element.ofJson?_toJson fits)
  · exact Outline.keeps_outline.edits edits (Outline.ofJson?_toJson o)
  · intro π host located program other call source stderr o reported launched printed
    rw [Located.parser, launched, reported]
    dsimp only
    rw [printed, Outline.outline_of_printed]

/-- A class with a member that nobody reads, whose constructor stands without its null fields; an
outline with a class of which only the name is left; and a script that prints the outline of a
source. -/
theorem codecs_lossless_nested :
    let initializer : Element := {
      name := "__init__", kind := .method, startLine := 2, endLine := 3, owner := "Lamp",
      parameters := [{ name := "self" }], totalLines := 2, linesOfCode := 2, parameterCount := 1 }
    let lamp : Element := {
      name := "Lamp", kind := .classDef, startLine := 1, endLine := 3, methods := ["__init__"],
      constructor := some initializer, totalLines := 3, linesOfCode := 3 }
    let outline : Outline := { valid := true, classes := [{ name := some "Lamp" }] }
    let source := "class Lamp:\n    pass\n"
    Element.ofJson? (.obj (("decorators", .texts ["bright"]) :: (lamp.members.take 11 ++
        ("constructor", .obj (initializer.members.filter fun m =>
          m.1 != "return_type_hint" && m.1 != "constructor")) :: lamp.members.drop 12))) =
        some lamp ∧
      Outline.ofJson? (.obj [("valid", .bool true),
        ("classes", .arr [.obj [("name", .str "Lamp")]]), ("functions", .arr []),
        ("exceptions", .arr [])]) = some outline ∧
      (Located.byName "python3").parser ({} : Script).host 0 source =
        Parser.indentation 0 source := by
  intro initializer lamp outline source
  obtain ⟨elements, outlines, parsers⟩ := codecs_lossless
  have fits : lamp.Fits := .intro (by decide) (by decide) fun c inside => by
    cases inside
    exact .intro (by decide) (by decide) fun _ => nofun
  refine ⟨elements lamp fits _ ?_, outlines outline _ ?_, parsers _ _ _ _ 0 source "" _ rfl rfl rfl⟩
  · have inner : Relation.ReflTransGen (Edit Element.layout (.record .element)) initializer.toJson
        (.obj (initializer.members.filter fun m =>
          m.1 != "return_type_hint" && m.1 != "constructor")) := by
      have nulls : ∀ m ∈ initializer.members,
          (m.1 != "return_type_hint" && m.1 != "constructor") = false → m.2 = .null := by
        simp [Element.members, initializer, ofOption]
      rw [Element.toJson_eq]
      exact edits_filter _ [] nulls
    rw [Element.toJson_eq]
    refine .tail ?_ (.add (by decide) _ _)
    exact edits_member (lamp.members.take 11) (lamp.members.drop 12) inner
  · have inner : Relation.ReflTransGen (Edit Outline.layout (.record .classDef))
        (Outline.Class.toJson { name := some "Lamp" }) (.obj [("name", .str "Lamp")]) :=
      edits_filter (fun m => m.1 == "name") [] (by simp [ofOption])
    exact edits_member [("valid", .bool true)] _ (edits_item [] [] inner)

end AutoDoc
