import FlagLogic.Value

/-!
Layers of data. A layer is laid over another one key by key: where both hold a map under a key, the
maps are laid over each other in the same way; otherwise the upper layer hides the lower one. The
keys of the lower layer come first.
-/

namespace FlagLogic.Layer

mutual

/-- The lower layer with the upper one over it. -/
def overlay (lower : List (Value × Value)) : (upper : List (Value × Value)) → List (Value × Value)
  | [] => lower
  | (k, v) :: rest => overlay (Value.put lower k (overlaid (Value.find? lower k) v)) rest

/-- What stands under a key, given what the lower layer has there and what the upper one has. -/
def overlaid (below : Option Value) : Value → Value
  | .map upper =>
    match below with
    | some (.map lower) => .map (overlay lower upper)
    | _ => .map upper
  | v => v

end

/-- All layers over each other, the uppermost one first in the list. -/
def stack (layers : List (List (Value × Value))) : List (Value × Value) :=
  layers.foldl (fun upper lower => overlay lower upper) []

end FlagLogic.Layer
