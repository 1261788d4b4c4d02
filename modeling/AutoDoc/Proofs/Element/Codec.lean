import AutoDoc.Element.Codec
import AutoDoc.Proofs.Json.Edits

/-!
# Elements read back

An element is read back from the value it is written as, with constructors nested to any depth
(`ofJson?_toJson`), and an edit to its record or to a record in it changes nothing of what is read
(`keeps_element`). The reader is told how deep constructors may be nested; `decode?_eq` says that
any number that is not less than the depth of the value will do.
-/

namespace AutoDoc

open Json

theorem presentMember_keys (key : String) (o : Option String) :
    ((presentMember key o).map (·.1)).Sublist [key] := by
  cases o with
  | none => exact List.nil_sublist _
  | some s => exact List.Sublist.refl _

theorem Parameter.ofJson?_toJson (p : Parameter) : Parameter.ofJson? p.toJson = some p := by
  rw [ofJson?, toJson, record?_of_sublist ?_ (by decide)]
  · rcases p with ⟨name, _ | hint, _ | written⟩ <;>
      simp [presentMember, required, Json.optional, defaulted, nullable, lookup_cons_eq_if]
  · rw [List.cons_append, List.map_cons, List.map_append]
    exact ((presentMember_keys _ _).append (presentMember_keys _ _)).cons_cons _

theorem ExceptionUse.ofJson?_toJson (e : ExceptionUse) :
    ExceptionUse.ofJson? e.toJson = some e := by
  rw [ofJson?, toJson, record?_of_sublist ?_ (by decide)]
  · -- `Option.bind_some` holds by computation, which would take the bounds of a line apart.
    rcases e with ⟨name, _ | localName, first, last⟩ <;>
      simp [-Option.bind_some, Option.bind_eq_some_iff, presentMember, required, Json.optional,
        defaulted, nullable, lookup_cons_eq_if]
  · rw [List.cons_append, List.map_cons, List.map_append]
    exact ((presentMember_keys _ _).append (List.Sublist.refl _)).cons_cons _

theorem ElementKind.ofJson?_text (k : ElementKind) : ElementKind.ofJson? (.str k.text) = some k := by
  cases k <;> rfl

namespace Element

theorem variableName?_variableJson (name : String) : variableName? (variableJson name) = some name :=
  rfl

/-- The counts of an element, and of the constructors in it, fit 64 bits. -/
inductive Fits : Element → Prop where
  | intro {e : Element} (parameters : e.parameterCount < Word.limit64)
      (annotated : e.annotatedCount < Word.limit64)
      (inside : ∀ c, e.constructor = some c → Fits c) : Fits e

/-! ### The limit of nesting -/

theorem optional_congr {α : Type} {read read' : Json → Option α} {name : String}
    {fields : List (String × Json)}
    (same : ∀ v, fields.lookup name = some v → read v = read' v) :
    Json.optional read name fields = Json.optional read' name fields := by
  unfold Json.optional defaulted
  cases found : fields.lookup name with
  | none => rfl
  | some v => cases v <;> simp [nullable, same _ found]

/-- All limits that are not less than the depth of the value are alike. -/
theorem decode?_eq {limit limit' : Nat} {j : Json} (deep : j.depth ≤ limit)
    (deep' : j.depth ≤ limit') : decode? limit j = decode? limit' j := by
  induction limit generalizing limit' j with
  | zero => cases j <;> simp [depth] at deep
  | succ limit ih =>
    cases limit' with
    | zero => cases j <;> simp [depth] at deep'
    | succ limit' =>
      refine Option.bind_congr fun fields found => ?_
      have inner : Json.optional (decode? limit) "constructor" fields =
          Json.optional (decode? limit') "constructor" fields :=
        optional_congr fun v here => by
          have := depth_of_record? found here
          exact ih (by omega) (by omega)
      simp only [inner]

/-! ### Reading back -/

def members (e : Element) : List (String × Json) :=
  [("name", .str e.name), ("kind", .str e.kind.text), ("start_line", .nat e.startLine.toNat),
    ("end_line", .nat e.endLine.toNat), ("documentation", .str e.documentation),
    ("enclosing_context", texts e.context), ("owner", .str e.owner),
    ("parameters", .arr (e.parameters.map Parameter.toJson)),
    ("return_type_hint", ofOption .str e.returns), ("inheritance", texts e.inheritance),
    ("methods", texts e.methods), ("constructor", ofOption toJson e.constructor),
    ("class_variables", .arr (e.classVariables.map variableJson)),
    ("instance_variables", .arr (e.instanceVariables.map variableJson)),
    ("exceptions", .arr (e.exceptions.map ExceptionUse.toJson)),
    ("total_lines", .nat e.totalLines.toNat), ("lines_of_code", .nat e.linesOfCode.toNat),
    ("parameter_count", .nat e.parameterCount),
    ("annotated_parameter_count", .nat e.annotatedCount)]

theorem toJson_eq (e : Element) : e.toJson = .obj e.members := by
  have inner (c : Option Element) : constructorJson c = ofOption toJson c := by
    cases c <;> rfl
  cases e
  rw [toJson, inner, members]

theorem toJson_ne_null (e : Element) : e.toJson ≠ .null := by
  rw [toJson_eq]
  nofun

theorem record?_toJson (e : Element) : record? .strict fields e.toJson = some e.members := by
  rw [toJson_eq]
  exact record?_of_fields rfl (by decide)

theorem depth_constructor {e c : Element} (inside : e.constructor = some c) :
    c.toJson.depth < e.toJson.depth := by
  have stands : e.members.lookup "constructor" = some c.toJson := by
    simp [members, lookup_cons_eq_if, inside, ofOption]
  exact depth_of_record? (record?_toJson e) stands

/-- An element is read back from what is written for it, with its constructors. -/
theorem decode?_toJson {e : Element} (fits : e.Fits) (limit : Nat)
    (deep : e.toJson.depth ≤ limit) : decode? limit e.toJson = some e := by
  induction fits generalizing limit with
  | @intro e parameters annotated inside ih =>
    cases limit with
    | zero => rw [toJson_eq] at deep; cases deep
    | succ limit =>
      refine read_bind (record?_toJson e) ?_
      have inner : Json.optional (decode? limit) "constructor" e.members = some e.constructor :=
        optional_ofOption rfl toJson_ne_null fun c here =>
          ih c here limit (by have := depth_constructor here; omega)
      exact
        read_bind (required_of_lookup rfl (text?_str _)) <|
        read_bind (required_of_lookup rfl (ElementKind.ofJson?_text _)) <|
        read_bind (required_of_lookup rfl (word32?_nat _)) <|
        read_bind (required_of_lookup rfl (word32?_nat _)) <|
        read_bind (required_of_lookup rfl (text?_str _)) <|
        read_bind (required_of_lookup rfl (list?_texts _)) <|
        read_bind (required_of_lookup rfl (text?_str _)) <|
        read_bind (required_of_lookup rfl (list?_map Parameter.ofJson?_toJson _)) <|
        read_bind (optional_ofOption rfl (fun _ => nofun) fun _ _ => text?_str _) <|
        read_bind (required_of_lookup rfl (list?_texts _)) <|
        read_bind (required_of_lookup rfl (list?_texts _)) <|
        read_bind inner <|
        read_bind (required_of_lookup rfl (list?_map variableName?_variableJson _)) <|
        read_bind (required_of_lookup rfl (list?_map variableName?_variableJson _)) <|
        read_bind (required_of_lookup rfl (list?_map ExceptionUse.ofJson?_toJson _)) <|
        read_bind (required_of_lookup rfl (word32?_nat _)) <|
        read_bind (required_of_lookup rfl (word32?_nat _)) <|
        read_bind (required_of_lookup rfl (size?_nat parameters)) <|
        read_bind (required_of_lookup rfl (size?_nat annotated)) (by cases e; rfl)

theorem ofJson?_toJson {e : Element} (fits : e.Fits) : ofJson? e.toJson = some e :=
  decode?_toJson fits _ (Nat.le_refl _)

/-! ### Edits -/

/-- The kinds of records that an element is made of. -/
inductive RecordKind where
  | element
  | parameter
  | variable
  | exceptionUse

/-- The fields of the records and the records in them. -/
def layout : Layout RecordKind where
  fields
    | .element => Element.fields
    | .parameter => Parameter.fields
    | .variable => ["name"]
    | .exceptionUse => ExceptionUse.fields
  content
    | .element, "parameters" => .records .parameter
    | .element, "constructor" => .record .element
    | .element, "class_variables" => .records .variable
    | .element, "instance_variables" => .records .variable
    | .element, "exceptions" => .records .exceptionUse
    | _, _ => .plain

theorem keeps_parameter : Keeps layout (.record .parameter) Parameter.ofJson? :=
  .record <| .bind (.required .plain rfl) fun _ => .bind (.optional .plain) fun _ =>
    .bind (.optional .plain) fun _ => .pure _

theorem keeps_variable : Keeps layout (.record .variable) variableName? :=
  .record <| .required .plain rfl

theorem keeps_exceptionUse : Keeps layout (.record .exceptionUse) ExceptionUse.ofJson? :=
  .record <| .bind (.required .plain rfl) fun _ => .bind (.optional .plain) fun _ =>
    .bind (.required .plain rfl) fun _ => .bind (.required .plain rfl) fun _ => .pure _

/-- The induction is on the limit, so that the constructor is kept when the element is looked at. -/
theorem keeps_decode? (limit : Nat) : Keeps layout (.record .element) (decode? limit) := by
  induction limit with
  | zero => exact fun _ _ _ _ => nofun
  | succ limit ih =>
    exact .record <|
      .bind (.required .plain rfl) fun _ => .bind (.required .plain rfl) fun _ =>
      .bind (.required .plain rfl) fun _ => .bind (.required .plain rfl) fun _ =>
      .bind (.required .plain rfl) fun _ => .bind (.required .plain rfl) fun _ =>
      .bind (.required .plain rfl) fun _ =>
      .bind (.required keeps_parameter.list rfl) fun _ =>
      .bind (.optional .plain) fun _ => .bind (.required .plain rfl) fun _ =>
      .bind (.required .plain rfl) fun _ => .bind (.optional ih) fun _ =>
      .bind (.required keeps_variable.list rfl) fun _ =>
      .bind (.required keeps_variable.list rfl) fun _ =>
      .bind (.required keeps_exceptionUse.list rfl) fun _ =>
      .bind (.required .plain rfl) fun _ => .bind (.required .plain rfl) fun _ =>
      .bind (.required .plain rfl) fun _ =>
      .bind (.required .plain rfl) fun _ => .pure _

theorem keeps_element : Keeps layout (.record .element) ofJson? := by
  intro v w edit e read
  have limits := Nat.le_max_left v.depth w.depth
  have limits' := Nat.le_max_right v.depth w.depth
  rw [ofJson?, decode?_eq (Nat.le_refl _) limits] at read
  rw [ofJson?, decode?_eq (Nat.le_refl _) limits']
  exact keeps_decode? _ v w edit e read

end Element

end AutoDoc
