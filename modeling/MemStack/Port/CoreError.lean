import Mathlib

/-!
This module contains the error type of the ports (`ports.rs`) with the texts it is displayed as.
-/

namespace MemStack

inductive CoreError where
  | notFound
  | llm (message : String)
  | embedding (message : String)
  | rerank (message : String)
  | storage (message : String)
  | tool (message : String)
  | vector (message : String)
  | graph (message : String)
  | checkpoint (message : String)
  | plan (message : String)
  | harness (message : String)
  | event (message : String)
  | container (message : String)
  | email (message : String)
  deriving DecidableEq, Repr

def CoreError.toText : CoreError → String
  | .notFound => "not found"
  | .llm message => s!"llm error: {message}"
  | .embedding message => s!"embedding error: {message}"
  | .rerank message => s!"rerank error: {message}"
  | .storage message => s!"storage error: {message}"
  | .tool message => s!"tool error: {message}"
  | .vector message => s!"vector index error: {message}"
  | .graph message => s!"graph store error: {message}"
  | .checkpoint message => s!"checkpoint error: {message}"
  | .plan message => s!"plan error: {message}"
  | .harness message => s!"harness error: {message}"
  | .event message => s!"event stream error: {message}"
  | .container message => s!"container runtime error: {message}"
  | .email message => s!"email error: {message}"

end MemStack
