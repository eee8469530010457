import Vivarium.Scalar.Order

/-!
# Who is kin to whom

Two creatures are kin if their hues lie close together on the wheel, or, where genomes are compared, if
these are similar enough. Each creature has a threshold of its own, and the stricter of the two decides.
So both relations are symmetric.
-/

namespace Vivarium

/-- The distance of two hues on the wheel, as a fraction of its circumference. -/
def hueDistance (a b : Float) : Float :=
  let d := (a - b).abs
  lesser d (360.0 - d) / 360.0

/-- What the hue relation looks at in a creature. -/
structure HueMark where
  hue       : Float
  threshold : Float

/-- Kinship by hue. -/
def isKin (a b : HueMark) : Bool :=
  hueDistance a.hue b.hue ≤ 1.0 - greater a.threshold b.threshold

/-- Kinship by the similarity of two genomes. -/
def isSimilarKin (similarity thresholdA thresholdB : Float) : Bool :=
  greater thresholdA thresholdB ≤ similarity

end Vivarium
