/-!
# `ClientSynth.Route.Verb` — request verbs

The seven verbs a route may name, with the words that stand for them: upper case on the wire, either
case in contracts, capitalised in emitted source.
-/

set_option autoImplicit false

namespace ClientSynth

/-- The verb of a request. -/
inductive Verb where
  | get | post | put | patch | delete | head | options
  deriving DecidableEq, Inhabited, Repr

namespace Verb

/-- All verbs, in the order in which messages list them. -/
def all : List Verb := [get, post, put, patch, delete, head, options]

/-- The word on the wire. -/
def word : Verb → String
  | get => "GET"
  | post => "POST"
  | put => "PUT"
  | patch => "PATCH"
  | delete => "DELETE"
  | head => "HEAD"
  | options => "OPTIONS"

/-- The word in lower case, which contracts may use too. -/
def lowerWord : Verb → String
  | get => "get"
  | post => "post"
  | put => "put"
  | patch => "patch"
  | delete => "delete"
  | head => "head"
  | options => "options"

/-- The capitalised word, as emitted source names the verb. -/
def variant : Verb → String
  | get => "Get"
  | post => "Post"
  | put => "Put"
  | patch => "Patch"
  | delete => "Delete"
  | head => "Head"
  | options => "Options"

instance : ToString Verb := ⟨word⟩

/-- The verb a word stands for, in upper or in lower case. -/
def ofWord? (s : String) : Option Verb :=
  all.find? fun v => v.word == s || v.lowerWord == s

theorem ofWord?_word (v : Verb) : ofWord? v.word = some v := by
  cases v <;> decide

theorem ofWord?_lowerWord (v : Verb) : ofWord? v.lowerWord = some v := by
  cases v <;> decide

end Verb

end ClientSynth
