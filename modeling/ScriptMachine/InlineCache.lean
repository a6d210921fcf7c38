import ScriptMachine.Heap.Cell

/-! # Inline caches

An inline cache remembers, for one place in a program, what was found for the few keys that place
has met. It holds at most four keys; when a fifth one comes it gives up for good. Property sites are
keyed by the shape of the receiver, call sites by the function that is called. -/

namespace ScriptMachine

/-- The number of keys a cache holds before it gives up. -/
def polymorphicCacheSize : Nat := 4

/-- A cache from keys to entries. -/
inductive InlineCache (κ ε : Type) where
  /-- No entry. -/
  | uninitialized
  /-- One entry. -/
  | monomorphic (key : κ) (entry : ε)
  /-- Two to four entries, in the order in which their keys came. -/
  | polymorphic (entries : List (κ × ε))
  /-- Given up. -/
  | megamorphic
deriving DecidableEq, Repr

/-- The state of a cache, as far as it is shown. -/
inductive CacheState where
  /-- No entry. -/
  | uninitialized
  /-- One entry. -/
  | monomorphic
  /-- That many entries. -/
  | polymorphic (count : Nat)
  /-- Given up. -/
  | megamorphic
deriving DecidableEq, Repr

/-- The state as text. -/
def CacheState.text : CacheState → String
  | .uninitialized => "uninitialized"
  | .monomorphic => "monomorphic"
  | .polymorphic count => "polymorphic " ++ toString count
  | .megamorphic => "megamorphic"

namespace InlineCache

variable {κ ε : Type} [DecidableEq κ]

instance : Inhabited (InlineCache κ ε) := ⟨.uninitialized⟩

/-- The entry of a key. -/
def lookup? : InlineCache κ ε → κ → Option ε
  | .uninitialized, _ | .megamorphic, _ => none
  | .monomorphic key entry, k => if key = k then some entry else none
  | .polymorphic entries, k => (entries.find? fun e => e.1 = k).map (·.2)

/-- Records the entry of a key. -/
def update : InlineCache κ ε → κ → ε → InlineCache κ ε
  | .uninitialized, k, e => .monomorphic k e
  | .monomorphic key entry, k, e =>
    if key = k then .monomorphic key e else .polymorphic [(key, entry), (k, e)]
  | .polymorphic entries, k, e =>
    if entries.any fun x => x.1 = k then
      .polymorphic (entries.map fun x => if x.1 = k then (x.1, e) else x)
    else if entries.length < polymorphicCacheSize then .polymorphic (entries ++ [(k, e)])
    else .megamorphic
  | .megamorphic, _, _ => .megamorphic

/-- Drops the entries a test rejects; a cache that has given up stays so. -/
def retain (keep : κ → ε → Bool) : InlineCache κ ε → InlineCache κ ε
  | .monomorphic key entry => if keep key entry then .monomorphic key entry else .uninitialized
  | .polymorphic entries =>
    match entries.filter fun x => keep x.1 x.2 with
    | [] => .uninitialized
    | [(key, entry)] => .monomorphic key entry
    | kept => .polymorphic kept
  | cache => cache

/-- The state of a cache. -/
def state : InlineCache κ ε → CacheState
  | .uninitialized => .uninitialized
  | .monomorphic _ _ => .monomorphic
  | .polymorphic entries => .polymorphic entries.length
  | .megamorphic => .megamorphic

end InlineCache

/-- What a property site remembers about a shape. -/
inductive PropertyEntry where
  /-- The receiver itself has the property. -/
  | getOwn (shape : ShapeId) (offset : Nat)
  /-- The prototype of the receiver has the property. -/
  | getPrototype (shape : ShapeId) (holder : Handle) (holderShape : ShapeId) (offset : Nat)
  /-- A write replaces a value. -/
  | replace (shape : ShapeId) (offset : Nat)
  /-- A write adds the property. -/
  | transition (source target : ShapeId) (offset : Nat)
deriving DecidableEq, Repr

namespace PropertyEntry

/-- The shape of the receiver the entry is for. -/
def guardShape : PropertyEntry → ShapeId
  | .getOwn shape _ | .getPrototype shape _ _ _ | .replace shape _ => shape
  | .transition source _ _ => source

/-- All shapes the entry relies on. -/
def shapes : PropertyEntry → List ShapeId
  | .getOwn shape _ | .replace shape _ => [shape]
  | .getPrototype shape _ holderShape _ => [shape, holderShape]
  | .transition source target _ => [source, target]

end PropertyEntry

/-- The cache of a property site. -/
abbrev PropertyCache := InlineCache ShapeId PropertyEntry

/-- The cache of a call site. -/
abbrev CallCache := InlineCache Handle CallTarget

/-- The caches of a code block. -/
structure CodeCaches where
  /-- One for each property site. -/
  properties : Array PropertyCache
  /-- One for each call site. -/
  calls : Array CallCache
deriving Inhabited

/-- Empty caches. -/
def CodeCaches.new (propertySites callSites : Nat) : CodeCaches :=
  { properties := Array.replicate propertySites .uninitialized
    calls := Array.replicate callSites .uninitialized }

end ScriptMachine
