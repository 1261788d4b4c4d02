import AutoDoc.Proofs.Json.Printable
import AutoDoc.Worker.Service

/-!
# Messages as they are understood

A request line is read back with its members, whatever place they took in it (`parse?_requestLine`,
`request_get?`). A reply is decoded from what it tells, in whatever order its members are
printed (`Tells.ok`, `Tells.error`).
-/

namespace AutoDoc

open Json

/-! ### Values in replies -/

theorem Token.ofJson?_collapse (t : Token) : Token.ofJson? t.toJson.collapse = some t := by
  have sorted : t.toJson.collapse = .obj [("pos_tag", .str t.partOfSpeech), ("role", .str t.role),
      ("word", .str t.word)] := rfl
  rw [sorted]
  simp [Token.ofJson?, record?, known, distinctKeys, required, lookup_cons_eq_if]

namespace Worker

/-! ### Requests -/

variable {id : Nat} {op key : String} {params : List (String × Json)} {v : Json}

/-- A worker reads the request that was written. -/
theorem parse?_requestLine (small : id < Word.limit64)
    (printable : ∀ m ∈ params, Printable 126 m.2) :
    Json.parse? (requestLine id op params) = some (request id op params) := by
  refine (Printable.obj fun m member => ?_).parse?
  rcases List.mem_append.mp (mem_sortMembers _ m member) with own | param
  · obtain rfl | rfl : m = ("id", .nat id) ∨ m = ("op", .str op) := by simpa using own
    · exact .nat small
    · exact .str op
  · exact printable m param

theorem request_get? (distinct : ("id" :: "op" :: params.map (·.1)).Nodup)
    (member : (key, v) ∈ ("id", .nat id) :: ("op", .str op) :: params) :
    (request id op params).get? key = some v := by
  have keys : ((("id", Json.nat id) :: ("op", .str op) :: params).map (·.1)).Nodup := distinct
  change (sortMembers (("id", .nat id) :: ("op", .str op) :: params)).lookup key = _
  rw [lookup_sortMembers_of_nodup keys]
  exact (lookup_eq_some_iff keys).mpr member

/-! ### Replies -/

/-- A reply with at most one member of no meaning of its own is decoded alike in any order of its
members. -/
theorem Response.ofJson?_perm {members printed : List (String × Json)}
    (perm : printed.Perm members) (distinct : (members.map (·.1)).Nodup)
    (few : (members.filter fun m => !Response.fields.contains m.1).length ≤ 1) :
    Response.ofJson? (.obj printed) = Response.ofJson? (.obj members) := by
  have readable : (Json.obj printed).readable = (Json.obj members).readable := by
    rw [Json.readable, Json.readable, membersReadable_eq_all, membersReadable_eq_all, perm.all_eq]
  have data : printed.filter (fun m => !Response.fields.contains m.1) =
      members.filter fun m => !Response.fields.contains m.1 := by
    have moved := perm.filter fun m => !Response.fields.contains m.1
    generalize members.filter (fun m => !Response.fields.contains m.1) = own at few moved ⊢
    rcases own with _ | ⟨m, _ | ⟨n, rest⟩⟩
    · exact moved.eq_nil
    · exact moved.eq_singleton
    · simp at few
  have fields : ((known Response.fields members).map (·.1)).Nodup :=
    distinct.sublist (List.filter_sublist.map _)
  have moved : (known Response.fields printed).Perm (known Response.fields members) :=
    perm.filter _
  have found (key : String) := lookup_perm fields moved.symm key
  have read : record? .strict Response.fields (.obj members) =
      some (known Response.fields members) := record?_obj_eq_some.mpr ⟨fields, rfl⟩
  have read' : record? .strict Response.fields (.obj printed) =
      some (known Response.fields printed) :=
    record?_obj_eq_some.mpr ⟨(moved.map _).nodup_iff.mpr fields, rfl⟩
  simp only [Response.ofJson?, readable, data, read, read', required, Json.optional, defaulted,
    found, Option.bind_eq_bind, Option.bind_some]

/-- A line tells an object with the given members, in whatever order. -/
def Tells (line : String) (members : List (String × Json)) : Prop :=
  ∃ printed, Json.parse? (Text.trim line) = some (.obj printed) ∧ printed.Perm members

theorem Tells.ofLine? {line : String} {members : List (String × Json)} (tells : Tells line members)
    (distinct : (members.map (·.1)).Nodup)
    (few : (members.filter fun m => !Response.fields.contains m.1).length ≤ 1) :
    Response.ofLine? (Text.trim line) = Response.ofJson? (.obj members) := by
  obtain ⟨printed, parsed, perm⟩ := tells
  rw [Response.ofLine?, parsed, Option.bind_some, Response.ofJson?_perm perm distinct few]

/-- The members of a reply to a toolkit request: its result under a key, or the failure. -/
def replyMembers {α : Type} (id : Nat) (key : String) (write : α → Json) :
    Except ToolkitError α → List (String × Json)
  | .ok a => [("id", .nat id), ("status", .str "ok"), (key, write a)]
  | .error _ => [("id", .nat id), ("status", .str "error"), ("error_code", .str "RuntimeError"),
      ("message", .str "toolkit offline")]

variable {α : Type} {line : String} {write : α → Json}

theorem nullable_id (small : id < Word.limit64) : nullable size? (.nat id) = some (some id) := by
  have there : Json.nat id ≠ .null := nofun
  rw [nullable_of_ne_null there, size?_nat small]
  rfl

/-- A line that tells a result is decoded to it. -/
theorem Tells.ok {a : α} (small : id < Word.limit64) (free : key ∉ Response.fields)
    (readable : (write a).readable = true)
    (tells : Tells line (replyMembers id key write (.ok a))) :
    Response.ofLine? (Text.trim line) =
      some ⟨some id, "ok", none, none, [(key, (write a).collapse)]⟩ := by
  obtain ⟨idFree, statusFree, codeFree, messageFree⟩ :
      key ≠ "id" ∧ key ≠ "status" ∧ key ≠ "error_code" ∧ key ≠ "message" := by
    simpa [Response.fields] using free
  have keys : ((replyMembers id key write (.ok a)).map (·.1)).Nodup := by
    simp [replyMembers, Ne.symm idFree, Ne.symm statusFree]
  have data : (replyMembers id key write (.ok a)).filter
      (fun m => !Response.fields.contains m.1) = [(key, write a)] := by
    simp [replyMembers, Response.fields, idFree, statusFree, codeFree, messageFree]
  have fields : known Response.fields (replyMembers id key write (.ok a)) =
      [("id", .nat id), ("status", .str "ok")] := by
    simp [replyMembers, known, Response.fields, idFree, statusFree, codeFree,
      messageFree]
  have record : record? .strict Response.fields (.obj (replyMembers id key write (.ok a))) =
      some [("id", .nat id), ("status", .str "ok")] :=
    record?_obj_eq_some.mpr ⟨by simp [fields], fields.symm⟩
  have whole : (Json.obj (replyMembers id key write (.ok a))).readable = true := by
    simp [replyMembers, Json.readable, membersReadable, nat, readable]
  rw [tells.ofLine? keys (by rw [data]; exact Nat.le_refl 1), Response.ofJson?, whole, record, data]
  simp [-Option.bind_some, Option.bind_eq_some_iff, required, Json.optional, defaulted,
    nullable_id small, lookup_cons_eq_if, collapse, collapseMembers, sortMembers, putSorted]

/-- A line that tells a failure is decoded to it. -/
theorem Tells.error {e : ToolkitError} (small : id < Word.limit64)
    (tells : Tells line (replyMembers id key write (.error e))) :
    Response.ofLine? (Text.trim line) =
      some ⟨some id, "error", some "RuntimeError", some "toolkit offline", []⟩ := by
  have data : (replyMembers id key write (.error e)).filter
      (fun m => !Response.fields.contains m.1) = [] := by
    simp [replyMembers, Response.fields]
  have record : record? .strict Response.fields (.obj (replyMembers id key write (.error e))) =
      some (replyMembers id key write (.error e)) := record?_of_fields (by rfl) (by decide)
  have whole : (Json.obj (replyMembers id key write (.error e))).readable = true := by
    simp [replyMembers, Json.readable, membersReadable, nat]
  rw [tells.ofLine? (by simp [replyMembers]) (by rw [data]; exact Nat.zero_le 1),
    Response.ofJson?, whole, record, data]
  simp [-Option.bind_some, Option.bind_eq_some_iff, replyMembers, required, Json.optional,
    defaulted, nullable_id small, lookup_cons_eq_if, collapse, collapseMembers, sortMembers]

end Worker

end AutoDoc
