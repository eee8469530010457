import Vivarium.Codec.Creature
import Vivarium.World.Frame

/-!
# Frames as data
-/

namespace Vivarium

def Hsl.toDatum (c : Hsl) : Datum :=
  .record [("h", .ofFloat c.hue), ("s", .ofFloat c.saturation), ("l", .ofFloat c.lightness)]

def CreatureFrame.toDatum (c : CreatureFrame) : Datum :=
  .record
    [ ("id",         .ofIdent c.id),
      ("position",   c.position.toDatum),
      ("radius",     .ofFloat c.radius),
      ("fill",       c.fill.toDatum),
      ("stroke",     c.stroke.toDatum),
      ("hunger",     .ofFloat c.hunger),
      ("mass",       .ofFloat c.mass),
      ("generation", .ofNat c.generation),
      ("genetic",    .text c.genetic) ]

def PelletFrame.toDatum (p : PelletFrame) : Datum :=
  .record [("id", .ofIdent p.id), ("position", p.position.toDatum)]

def LaserFrame.toDatum (l : LaserFrame) : Datum :=
  .record [("from", l.start.toDatum), ("to", l.stop.toDatum)]

def Frame.toDatum (f : Frame) : Datum :=
  .record
    [ ("tick",      .ofNat f.tick),
      ("width",     .ofFloat f.width),
      ("height",    .ofFloat f.height),
      ("creatures", .ofList CreatureFrame.toDatum f.creatures),
      ("food",      .ofList PelletFrame.toDatum f.food),
      ("lasers",    .ofList LaserFrame.toDatum f.lasers) ]

end Vivarium
