import AutoDoc.Toolkit.Basic
import AutoDoc.Worker.Session

/-!
# A toolkit behind a worker

A service keeps one session with a worker that hosts a natural-language toolkit. The known verbs
are asked for once, at the start; every request to the toolkit is one request to the worker. A
service that was shut down answers nothing any more.
-/

namespace AutoDoc

open Json

def Token.ofJson? (j : Json) : Option Token := do
  let fields ← record? .strict ["word", "pos_tag", "role"] j
  return {
    word := ← required text? "word" fields
    partOfSpeech := ← required text? "pos_tag" fields
    role := ← required text? "role" fields }

def Token.toJson (t : Token) : Json :=
  .obj [("word", .str t.word), ("pos_tag", .str t.partOfSpeech), ("role", .str t.role)]

namespace Worker

/-- A service: its session, the known verbs, and whether it was shut down. -/
structure Service (π : Type) where
  session : Session π
  verbs : List String
  closed : Bool := false

def toolkitError (op : String) : Error → ToolkitError
  | .failed code message => .requestFailed op (code ++ ": " ++ message)
  | other => .requestFailed op other.message

namespace Service

variable {π : Type}

/-- Ask the worker and read the member of its reply under `key`. -/
def ask {α : Type} (program : Program π) (op key : String) (params : List (String × Json))
    (read : Json → Option α) (session : Session π) : Except ToolkitError α × Session π :=
  match session.send program op params with
  | (.error e, session) => (.error (toolkitError op e), session)
  | (.ok response, session) =>
    match (response.data.lookup key).bind read with
    | some a => (.ok a, session)
    | none => (.error (.unexpectedReply op), session)

/-- Start a service. The number of processes started so far is passed on and returned. -/
def start (program : Program π) (starts : Nat) : Except ToolkitError (Service π) × Nat :=
  match Session.start program { starts } with
  | (.error e, session) => (.error (.unavailable e.message), session.starts)
  | (.ok (), session) =>
    match ask program "known_verbs" "verbs" [] (list? text?) session with
    | (.error e, session) => (.error e, session.starts)
    | (.ok verbs, session) => (.ok { session, verbs }, session.starts)

def call {α : Type} (program : Program π) (op key : String) (params : List (String × Json))
    (read : Json → Option α) : Toolkit.Request (Service π) α :=
  ExceptT.mk fun service =>
    if service.closed then (.error (.unavailable "NL service has shut down"), service)
    else
      let (result, session) := ask program op key params read service.session
      (result, { service with session })

def toolkit (program : Program π) (verbs : List String) : Toolkit (Service π) where
  segment identifier :=
    call program "segment" "words" [("identifier", .str identifier)] (list? text?)
  spellCorrect words := call program "spell_correct" "words" [("words", texts words)] (list? text?)
  tag phrase := call program "pos_tag" "tokens" [("phrase", .str phrase)] (list? Token.ofJson?)
  stem words := call program "stem" "stems" [("words", texts words)] (list? text?)
  knownVerbs := verbs

def shutdown (program : Program π) (service : Service π) : Service π :=
  if service.closed then service
  else { service with session := (service.session.shutdown program).2, closed := true }

/-- How a client of the service shows itself: by the number of distinct known verbs. -/
def clientText (service : Service π) : String :=
  "NlpClient \x7b known_verbs: " ++ toString service.verbs.eraseDups.length ++ " \x7d"

end Service

end Worker

end AutoDoc
