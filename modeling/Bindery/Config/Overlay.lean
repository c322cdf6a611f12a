import Bindery.Value.Key

/-!
# Overlaying configurations

A user's configuration is laid over the defaults: mappings are merged key by key at every depth, and
any other value replaces the default. Two lists are extended instead of replaced: the labels of
signal sections and the value types, which come out in ascending order without repetition.
-/

namespace Bindery.Config

/-- The keys of lists that extend the default. -/
def additiveKeys : List String := ["signal_sections", "value_types"]

mutual

/-- The value under a key after laying `update` over what is there. -/
def overlayValue (key : String) (current : Option Value) (update : Value) : Except Fault Value :=
  match update with
  | .mapping upper =>
    match current with
    | some (.mapping lower) => (overlayEntries lower upper).map Value.mapping
    | _ => .ok (.mapping upper)
  | .list upper =>
    match current with
    | some (.list lower) =>
      if key ∈ additiveKeys then (Value.sortedUnion lower upper).map Value.list
      else .ok (.list upper)
    | _ => .ok (.list upper)
  | v => .ok v
termination_by structural update

/-- The entries after laying others over them. -/
def overlayEntries (lower : List (String × Value)) (upper : List (String × Value)) :
    Except Fault (List (String × Value)) :=
  match upper with
  | [] => .ok lower
  | (key, v) :: rest =>
    match overlayValue key (lower.lookup key) v with
    | .ok merged => overlayEntries (Entries.put key merged lower) rest
    | .error fault => .error fault
termination_by structural upper

end

/-- Lays a configuration over another; only mappings can be laid over. -/
def overlay (lower : Entries) (update : Value) : Except Fault Value :=
  match update with
  | .mapping upper => (overlayEntries lower upper).map Value.mapping
  | v => .error (.noSuchPart v.kindWord "items")

/-- Lays a value over another. A list takes nothing, so only an empty mapping can be laid over
it. -/
def overlayOn (lower update : Value) : Except Fault Value :=
  match lower, update with
  | .mapping es, update => overlay es update
  | .list items, .mapping [] => .ok (.list items)
  | v, _ => .error (.noSuchPart v.kindWord "get")

end Bindery.Config
