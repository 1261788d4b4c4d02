import AutoDoc.Proofs.Json.Members
import Mathlib.Logic.Relation

/-!
# Edits that records survive

A record may be written without its empty fields, with members that nobody reads, or with its
members in another order. `Edit` is one such change, to a record or to a record somewhere inside it.
A reader keeps what it read through an edit (`Keeps`) if it takes a missing field for a null one, or
does not accept null there at all; the lemmas follow the combinators that readers are made of, down
to `Keeps.edits` for any number of edits.
-/

namespace AutoDoc.Json

/-- What is read from a value: something without records, a record, or a list of records. -/
inductive Content (κ : Type) where
  | plain
  | record (kind : κ)
  | records (kind : κ)

/-- The kinds of records that are read: the names of their fields and what is read from each. -/
structure Layout (κ : Type) where
  fields : κ → List String
  content : κ → String → Content κ

/-- A change to a record, or to a record inside a value, that takes nothing from it. In a record a
member with null is removed, a member that is no field is added, or members change places. -/
inductive Edit {κ : Type} (layout : Layout κ) : Content κ → Json → Json → Prop where
  | remove {kind : κ} (key : String) (rest : List (String × Json)) :
      Edit layout (.record kind) (.obj ((key, .null) :: rest)) (.obj rest)
  | add {kind : κ} {key : String} (unknown : key ∉ layout.fields kind) (v : Json)
      (rest : List (String × Json)) :
      Edit layout (.record kind) (.obj rest) (.obj ((key, v) :: rest))
  | reorder {kind : κ} {members others : List (String × Json)} (perm : members.Perm others) :
      Edit layout (.record kind) (.obj members) (.obj others)
  | member {kind : κ} {key : String} {v w : Json} (inner : Edit layout (layout.content kind key) v w)
      (rest : List (String × Json)) :
      Edit layout (.record kind) (.obj ((key, v) :: rest)) (.obj ((key, w) :: rest))
  | item {kind : κ} {v w : Json} (inner : Edit layout (.record kind) v w) (before after : List Json) :
      Edit layout (.records kind) (.arr (before ++ v :: after)) (.arr (before ++ w :: after))

/-- What a reader reads from a value, it reads after every edit of the value as well. -/
def Keeps {κ α : Type} (layout : Layout κ) (content : Content κ) (read : Json → Option α) : Prop :=
  ∀ v w, Edit layout content v w → ∀ a, read v = some a → read w = some a

/-- What an edit does to the value under one key. -/
inductive ValueEdit {κ : Type} (layout : Layout κ) (content : Content κ) :
    Option Json → Option Json → Prop where
  | same (found : Option Json) : ValueEdit layout content found found
  | removed : ValueEdit layout content (some .null) none
  | inside {v w : Json} (edit : Edit layout content v w) :
      ValueEdit layout content (some v) (some w)

/-- The fields of a record before and after an edit. -/
def FieldsEdited {κ : Type} (layout : Layout κ) (kind : κ)
    (fields fields' : List (String × Json)) : Prop :=
  ∀ key, ValueEdit layout (layout.content kind key) (fields.lookup key) (fields'.lookup key)

/-- What is read from the fields of a record is read from them after every edit as well. -/
def Preserves {κ α : Type} (layout : Layout κ) (kind : κ)
    (read : List (String × Json) → Option α) : Prop :=
  ∀ fields fields', FieldsEdited layout kind fields fields' →
    ∀ a, read fields = some a → read fields' = some a

section

variable {κ α β : Type} {layout : Layout κ} {content : Content κ} {kind : κ} {name : String}
  {read : Json → Option α} {v w : Json}

/-! ### One edit -/

theorem Edit.ne_null (edit : Edit layout content v w) : v ≠ .null ∧ w ≠ .null := by
  cases edit <;> exact ⟨nofun, nofun⟩

/-- After an edit the fields of a record are still there, at most with edits of their own. -/
theorem Edit.fields {mode : Strictness} {fields : List (String × Json)}
    (edit : Edit layout (.record kind) v w)
    (found : record? mode (layout.fields kind) v = some fields) :
    ∃ fields', record? mode (layout.fields kind) w = some fields' ∧
      FieldsEdited layout kind fields fields' := by
  cases edit with
  | remove key rest =>
    obtain ⟨distinct, rfl⟩ := record?_obj_eq_some.mp found
    rw [known_cons] at distinct ⊢
    split at distinct
    next field =>
      obtain ⟨absent, later⟩ := List.nodup_cons.mp distinct
      have gone : (known (layout.fields kind) rest).lookup key = none :=
        lookup_eq_none_iff.mpr absent
      refine ⟨_, record?_obj_eq_some.mpr ⟨later, rfl⟩, fun other => ?_⟩
      rw [if_pos field, lookup_cons_eq_if]
      split
      next same =>
        rw [same, gone]
        exact .removed
      next => exact .same _
    next unknown =>
      rw [if_neg unknown]
      exact ⟨_, record?_obj_eq_some.mpr ⟨distinct, rfl⟩, fun _ => .same _⟩
  | add unknown extra rest =>
    obtain ⟨distinct, rfl⟩ := record?_obj_eq_some.mp found
    refine ⟨known (layout.fields kind) rest, record?_obj_eq_some.mpr ?_, fun _ => .same _⟩
    rw [known_cons, if_neg unknown]
    exact ⟨distinct, rfl⟩
  | @reorder _ members others perm =>
    obtain ⟨distinct, rfl⟩ := record?_obj_eq_some.mp found
    have moved : (known (layout.fields kind) members).Perm (known (layout.fields kind) others) :=
      perm.filter _
    refine ⟨_, record?_obj_eq_some.mpr ⟨(moved.map _).nodup_iff.mp distinct, rfl⟩, fun key => ?_⟩
    rw [lookup_perm distinct moved key]
    exact .same _
  | @member _ key v w inner rest =>
    obtain ⟨distinct, rfl⟩ := record?_obj_eq_some.mp found
    refine ⟨_, record?_obj_eq_some.mpr ⟨?_, rfl⟩, fun other => ?_⟩ <;>
      rw [known_cons] at distinct ⊢ <;> split at distinct
    next field => rwa [if_pos field]
    next unknown => rwa [if_neg unknown]
    next field =>
      rw [known_cons, if_pos field, if_pos field, lookup_cons_eq_if, lookup_cons_eq_if]
      split
      next same => exact same ▸ .inside inner
      next => exact .same _
    next unknown =>
      rw [known_cons, if_neg unknown, if_neg unknown]
      exact .same _

/-! ### Readers of fields -/

theorem Preserves.pure (a : α) : Preserves layout kind fun _ => some a :=
  fun _ _ _ _ read => read

theorem Preserves.bind {first : List (String × Json) → Option α}
    {next : α → List (String × Json) → Option β} (head : Preserves layout kind first)
    (rest : ∀ a, Preserves layout kind (next a)) :
    Preserves layout kind fun fields => (first fields).bind fun a => next a fields := by
  intro fields fields' edited b read
  obtain ⟨a, here, below⟩ := Option.bind_eq_some_iff.mp read
  exact Option.bind_eq_some_iff.mpr
    ⟨a, head fields fields' edited a here, rest a fields fields' edited b below⟩

/-- A field that has to be there stays if null is not accepted in it. -/
theorem Preserves.required (keeps : Keeps layout (layout.content kind name) read)
    (strict : read .null = none) : Preserves layout kind (required read name) := by
  intro fields fields' edited a found
  have edit := edited name
  unfold Json.required at found ⊢
  generalize fields.lookup name = before, fields'.lookup name = after at edit found ⊢
  cases edit with
  | same => exact found
  | removed => exact absurd (strict.symm.trans found) nofun
  | inside edit => exact keeps _ _ edit a found

/-- The same holds for a field with a default that is not accepted as null. -/
theorem Preserves.defaulted (default : α) (keeps : Keeps layout (layout.content kind name) read)
    (strict : read .null = none) : Preserves layout kind (defaulted default read name) := by
  intro fields fields' edited a found
  have edit := edited name
  unfold Json.defaulted at found ⊢
  generalize fields.lookup name = before, fields'.lookup name = after at edit found ⊢
  cases edit with
  | same => exact found
  | removed => exact absurd (strict.symm.trans found) nofun
  | inside edit => exact keeps _ _ edit a found

/-- In an optional field null and nothing are read alike. -/
theorem Preserves.optional (keeps : Keeps layout (layout.content kind name) read) :
    Preserves layout kind (optional read name) := by
  intro fields fields' edited a found
  have edit := edited name
  unfold Json.optional Json.defaulted at found ⊢
  generalize fields.lookup name = before, fields'.lookup name = after at edit found ⊢
  cases edit with
  | same => exact found
  | removed => exact found
  | inside edit =>
    obtain ⟨b, here, rfl⟩ := Option.map_eq_some_iff.mp
      ((nullable_of_ne_null edit.ne_null.1).symm.trans found)
    exact (nullable_of_ne_null edit.ne_null.2).trans
      (Option.map_eq_some_iff.mpr ⟨b, keeps _ _ edit b here, rfl⟩)

/-! ### Readers of values -/

theorem Keeps.plain : Keeps layout .plain read := fun _ _ edit => by cases edit

/-- A record is kept if what is read from its fields is. -/
theorem Keeps.record {mode : Strictness} {body : List (String × Json) → Option α}
    (preserves : Preserves layout kind body) :
    Keeps layout (.record kind) fun j => (record? mode (layout.fields kind) j).bind body := by
  intro v w edit a read
  obtain ⟨fields, found, inside⟩ := Option.bind_eq_some_iff.mp read
  obtain ⟨fields', found', edited⟩ := edit.fields found
  exact Option.bind_eq_some_iff.mpr ⟨fields', found', preserves fields fields' edited a inside⟩

theorem all?_append (read : Json → Option α) (items others : List Json) :
    all? read (items ++ others) =
      (all? read items).bind fun as => (all? read others).map (as ++ ·) := by
  induction items with
  | nil => simp [all?]
  | cons v rest ih =>
    rw [List.cons_append, all?, all?, ih]
    cases read v <;> cases all? read rest <;> cases all? read others <;> rfl

theorem Keeps.list (keeps : Keeps layout (.record kind) read) :
    Keeps layout (.records kind) (list? read) := by
  intro v w edit as found
  cases edit with
  | @item _ v w inner before after =>
    simp only [list?, all?_append, all?] at found ⊢
    cases here : read v with
    | none => simp [here] at found
    | some a =>
      rw [here] at found
      rw [keeps v w inner a here]
      exact found

/-- Any number of edits leaves what is read as it was. -/
theorem Keeps.edits (keeps : Keeps layout content read) {a : α}
    (edits : Relation.ReflTransGen (Edit layout content) v w) (found : read v = some a) :
    read w = some a := by
  induction edits with
  | refl => exact found
  | tail _ edit ih => exact keeps _ _ edit a ih

/-! ### Many edits -/

/-- Any members with null can be removed, wherever they stand. -/
theorem edits_filter (p : String × Json → Bool) (before : List (String × Json))
    {members : List (String × Json)} (nulls : ∀ m ∈ members, p m = false → m.2 = .null) :
    Relation.ReflTransGen (Edit layout (.record kind)) (.obj (before ++ members))
      (.obj (before ++ members.filter p)) := by
  induction members generalizing before with
  | nil => exact .refl
  | cons m rest ih =>
    obtain ⟨here, later⟩ := List.forall_mem_cons.mp nulls
    rw [List.filter_cons]
    split
    next kept => simpa using ih (before ++ [m]) later
    next dropped =>
      rcases m with ⟨key, v⟩
      obtain rfl : v = .null := here (by simpa using dropped)
      exact .head (.reorder List.perm_middle) (.head (.remove key _) (ih before later))

/-- The value of a member can be edited, wherever the member stands. -/
theorem edits_member {key : String} (before after : List (String × Json))
    (inner : Relation.ReflTransGen (Edit layout (layout.content kind key)) v w) :
    Relation.ReflTransGen (Edit layout (.record kind)) (.obj (before ++ (key, v) :: after))
      (.obj (before ++ (key, w) :: after)) := by
  refine .head (.reorder List.perm_middle) (.tail ?_ (.reorder List.perm_middle.symm))
  exact inner.lift (fun value => Json.obj ((key, value) :: (before ++ after)))
    fun _ _ edit => Edit.member edit _

/-- A record in a list can be edited. -/
theorem edits_item (before after : List Json)
    (inner : Relation.ReflTransGen (Edit layout (.record kind)) v w) :
    Relation.ReflTransGen (Edit layout (.records kind)) (.arr (before ++ v :: after))
      (.arr (before ++ w :: after)) :=
  inner.lift (fun item => Json.arr (before ++ item :: after)) fun _ _ edit => Edit.item edit _ _

end

end AutoDoc.Json
