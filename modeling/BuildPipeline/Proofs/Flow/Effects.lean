import BuildPipeline.Flow.Effect

/-!
What the effects of a call come to for those outside: the commands that go out (`sends`) and the
builds that the flow ends with (`ends`).
-/

namespace BuildPipeline

/-- The command that an effect sends, and its address. -/
def Effect.sent? : Effect → Option (Address × Command)
  | .dispatch address command => some (address, command)
  | .publish _ | .finish _ => none

/-- The build that an effect ends the flow with. -/
def Effect.ended? : Effect → Option Build
  | .finish build => some build
  | .publish _ | .dispatch .. => none

/-- The commands that some effects send, in order. -/
def sends (effects : List Effect) : List (Address × Command) :=
  effects.filterMap Effect.sent?

/-- The builds that some effects end the flow with. -/
def ends (effects : List Effect) : List Build :=
  effects.filterMap Effect.ended?

@[simp]
theorem sends_append (one two : List Effect) : sends (one ++ two) = sends one ++ sends two := by
  simp [sends]

@[simp]
theorem ends_append (one two : List Effect) : ends (one ++ two) = ends one ++ ends two := by
  simp [ends]

@[simp]
theorem sends_nil : sends [] = [] :=
  rfl

@[simp]
theorem ends_nil : ends [] = [] :=
  rfl

@[simp]
theorem sends_publish (b : Build) (effects : List Effect) :
    sends (.publish b :: effects) = sends effects :=
  rfl

@[simp]
theorem ends_publish (b : Build) (effects : List Effect) :
    ends (.publish b :: effects) = ends effects :=
  rfl

@[simp]
theorem sends_dispatch (a : Address) (c : Command) (effects : List Effect) :
    sends (.dispatch a c :: effects) = (a, c) :: sends effects :=
  rfl

@[simp]
theorem ends_dispatch (a : Address) (c : Command) (effects : List Effect) :
    ends (.dispatch a c :: effects) = ends effects :=
  rfl

@[simp]
theorem sends_finish (b : Build) (effects : List Effect) :
    sends (.finish b :: effects) = sends effects :=
  rfl

@[simp]
theorem ends_finish (b : Build) (effects : List Effect) :
    ends (.finish b :: effects) = b :: ends effects :=
  rfl

end BuildPipeline
