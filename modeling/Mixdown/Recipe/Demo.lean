import Mixdown.Recipe.Basic

/-!
# A recipe to try things on
-/

namespace Mixdown.Recipe

def demoClip (source : ClipSource) (timing : ClipTiming Float) (volume : Option Float)
    (effects : List Effect) : Clip Float :=
  { source, timing, volume, effects }

/-- Rain, birds and a drone: every kind of clip and every family of effects. -/
def demo : Recipe Float where
  title := "Night Walk"
  tracks :=
    [.ofClips 0
        [demoClip (.file "rain.wav") (.elasticFrom 20.0 60.0) (some 80.0) [],
          demoClip .silence (.elasticFrom 2.0 6.0) none [],
          demoClip (.file "thunder.wav") (.fixed 8.0) none [.faraway true]]
        none [.wave "main"],
      .ofClips 1
        [demoClip .silence (.elasticFrom 1.0 10.0) none [],
          demoClip (.file "birds.wav") (.elasticFrom 10.0 30.0) none [.reverse],
          demoClip (.file "wind.wav") (.fixed 12.0) none []]
        (some 60.0) [.mixDuration .longest],
      .ofClips 2
        [demoClip (.file "drone.wav") (.fixed 15.0) none [.loop 3]]
        none []]

end Mixdown.Recipe
