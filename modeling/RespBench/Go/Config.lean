import Mathlib

/-!
# The configuration of the Go engine

What `internal/config` hands to the engine after unmarshalling: absent numbers are 0, absent strings
are empty, and the pointers are options. `ParseWorkloadConfig` puts in the defaults, and
`validateKnobs` rejects what the engine does not run.
-/

namespace RespBench.Go

/-- Whether a rune folds to a lower-case letter of ASCII: two of them have a third form outside
ASCII. -/
def foldsTo (r letter : Char) : Bool :=
  r = letter || r = letter.toUpper || (letter = 's' && r = Char.ofNat 0x17F) ||
    (letter = 'k' && r = Char.ofNat 0x212A)

/-- `strings.EqualFold` against a word of lower-case letters of ASCII. -/
def EqualFold : List Char → List Char → Bool
  | [], [] => true
  | r :: s, letter :: word => foldsTo r letter && EqualFold s word
  | _, _ => false

structure CompletionConfig where
  type : String
  seconds : ℤ
  requests : ℤ

def CompletionConfig.IsDurationBased (c : CompletionConfig) : Bool :=
  EqualFold c.type.toList "duration".toList
def CompletionConfig.IsRequestBased (c : CompletionConfig) : Bool :=
  EqualFold c.type.toList "requests".toList

structure PhaseConfig where
  connections : ℤ
  cpsLimit : ℤ
  rpsLimit : ℤ
  pipelineDepth : ℤ
  warmupRequests : Option ℤ
  completion : CompletionConfig
  /-- The names of the weighted commands. -/
  commands : List String

def PhaseConfig.HasRpsLimit (p : PhaseConfig) : Bool := p.rpsLimit > 0
def PhaseConfig.EffectiveWarmupRequests (p : PhaseConfig) : ℤ := p.warmupRequests.getD 1
def PhaseConfig.EffectivePipelineDepth (p : PhaseConfig) : ℤ :=
  if p.pipelineDepth < 1 then 1 else p.pipelineDepth

end RespBench.Go
