import NodeTagging.Host.Basic
import NodeTagging.Text.Lines

/-!
# The consumer of the generated files

The generated dispatcher does nothing until some file of the program calls it. A run looks into that
file, the *consumer*, for the name of the entry point, and never changes it.
-/

namespace NodeTagging

/-- Whether the consumer calls the dispatcher. -/
inductive Wiring where
  /-- It names the entry point. -/
  | wired
  /-- It does not name the entry point. -/
  | unwired
  /-- There is no consumer. -/
  | absent
deriving DecidableEq, Repr

namespace Wiring

/-- The word for a finding. -/
def word : Wiring → String
  | .wired => "ok"
  | .unwired => "needs-manual-wiring"
  | .absent => "consumer-missing"

/-- The finding of a given word. -/
def ofWord? (word : String) : Option Wiring :=
  [wired, unwired, absent].find? fun wiring => wiring.word = word

theorem ofWord?_word (wiring : Wiring) : ofWord? wiring.word = some wiring := by
  cases wiring <;> decide

/-- What the text of a consumer tells. -/
def ofText (source entryPoint : String) : Wiring :=
  if Text.occursIn entryPoint.toList source.toList then .wired else .unwired

end Wiring

/-- The result of a look into the consumer. -/
structure ConsumerCheck where
  /-- What was found. -/
  wiring : Wiring
  /-- The place of the consumer. -/
  path : String
  /-- The name that was looked for. -/
  entryPoint : String
deriving DecidableEq, Repr

namespace ConsumerCheck

/-- Looks into the consumer. -/
def perform {m : Type → Type} [Monad m] [Host m] (path entryPoint : String) :
    m ConsumerCheck := do
  if ← Host.isPresent path then
    let source ← Host.readText path
    pure ⟨.ofText source entryPoint, path, entryPoint⟩
  else pure ⟨.absent, path, entryPoint⟩

variable (check : ConsumerCheck)

/-- The warning about a consumer that is not there. -/
def warning? : Option Problem :=
  if check.wiring = .absent then some (.consumerMissing check.path) else none

/-- What the user has to do once, in numbered steps. -/
def instructions (dispatcherPlace : String) : List String :=
  ["1. Bring " ++ check.entryPoint ++ " from " ++ dispatcherPlace ++ " into scope",
    "2. Call " ++ check.entryPoint ++ " wherever " ++ check.path ++ " tags new nodes",
    "3. This is a one-time step; later runs only regenerate the files"]

end ConsumerCheck

end NodeTagging
