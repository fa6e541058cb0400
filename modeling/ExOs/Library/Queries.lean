import Mathlib.Data.List.Basic

/-!
# Programs that ask for values by key

A program asks for the values of some keys, each question depending on the
answers so far, and ends with a result.  Its answers come from a function, or
from a server with a state, such as a cache in front of a store.
-/

namespace ExOs.Library

open List

inductive Query (Key Value Result : Type) where
  | done (res : Result)
  | ask (key : Key) (next : Value → Query Key Value Result)

namespace Query

variable {Key Value State Result Other : Type} {answer : Key → Value}

def bind : Query Key Value Result → (Result → Query Key Value Other) → Query Key Value Other
  | .done res, next => next res
  | .ask key after, next => .ask key fun value => (after value).bind next

instance : Monad (Query Key Value) where
  pure := .done
  bind := bind

def eval (answer : Key → Value) : Query Key Value Result → Result
  | .done res => res
  | .ask key next => (next (answer key)).eval answer

def trace (answer : Key → Value) : Query Key Value Result → List Key
  | .done _ => []
  | .ask key next => key :: (next (answer key)).trace answer

/-- The result when a server answers, and the server's state after it. -/
def run (serve : State → Key → Value × State) : Query Key Value Result → State → Result × State
  | .done res, state => (res, state)
  | .ask key next, state =>
    (next (serve state key).1).run serve (serve state key).2

variable (query : Query Key Value Result)

include query

theorem eval_congr {fst snd : Key → Value} :
    (∀ key ∈ query.trace fst, snd key = fst key) → query.eval snd = query.eval fst := by
  induction query with
  | done res =>
    intro _
    rfl
  | ask key next ih =>
    intro agree
    have here : snd key = fst key := agree key mem_cons_self
    rw [eval, here]
    apply ih
    intro other later
    exact agree other (mem_cons_of_mem key later)

theorem eval_bind (next : Result → Query Key Value Other) :
    (query >>= next).eval answer = (next (query.eval answer)).eval answer := by
  induction query with
  | done res => rfl
  | ask key after ih => exact ih (answer key)

theorem trace_bind (next : Result → Query Key Value Other) : (query >>= next).trace answer =
      query.trace answer ++ (next (query.eval answer)).trace answer := by
  induction query with
  | done res => rfl
  | ask key after ih =>
    exact congrArg (key :: ·) (ih (answer key))

omit query

/-- A program that asks for allowed keys only and ends in a result for which
`post` holds. -/
def Meets (allowed : Key → Prop) (answer : Key → Value)
    (query : Query Key Value Result) (post : Result → Prop) : Prop :=
  (∀ key ∈ query.trace answer, allowed key) ∧ post (query.eval answer)

section Meets

variable {allowed : Key → Prop} {answer : Key → Value} {query : Query Key Value Result}
  {post : Result → Prop}

theorem Meets.pure {res : Result} (holds : post res) :
    Meets allowed answer (Pure.pure res : Query Key Value Result) post :=
  ⟨fun _ mem => absurd mem not_mem_nil, holds⟩

theorem Meets.bind {next : Result → Query Key Value Other} {middle : Result → Prop}
    {post : Other → Prop} (fst : Meets allowed answer query middle)
    (snd : ∀ res, middle res → Meets allowed answer (next res) post) :
    Meets allowed answer (query >>= next) post := by
  have rest := snd _ fst.2
  refine ⟨?_, ?_⟩
  · intro key mem
    rw [trace_bind, mem_append] at mem
    rcases mem with early | late
    · exact fst.1 key early
    · exact rest.1 key late
  · rw [eval_bind]
    exact rest.2

theorem Meets.ask {key : Key} {next : Value → Query Key Value Result} (here : allowed key)
    (rest : Meets allowed answer (next (answer key)) post) :
    Meets allowed answer (.ask key next) post := by
  refine ⟨?_, rest.2⟩
  intro other mem
  rcases mem_cons.mp mem with fst | later
  · exact fst ▸ here
  · exact rest.1 other later

theorem Meets.mono {weak strong : Result → Prop} (meets : Meets allowed answer query strong)
    (implies : ∀ res, strong res → weak res) :
    Meets allowed answer query weak :=
  ⟨meets.1, implies _ meets.2⟩

end Meets

theorem run_eq {serve : State → Key → Value × State} {faithful : State → Prop}
    (served : ∀ state key, faithful state →
      (serve state key).1 = answer key ∧ faithful (serve state key).2)
    (query : Query Key Value Result) :
    ∀ state, faithful state → (query.run serve state).1 = query.eval answer ∧
        faithful (query.run serve state).2 := by
  induction query with
  | done res =>
    intro state good
    exact ⟨rfl, good⟩
  | ask key next ih =>
    intro state good
    obtain ⟨answered, good'⟩ := served state key good
    rw [run, answered]
    exact ih (answer key) _ good'

end Query

end ExOs.Library
