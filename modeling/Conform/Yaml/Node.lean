import Conform.Source
import Conform.Yaml.Cursor
import Conform.Yaml.Tag

/-! The node tree of a document, and where its nodes stand. A node that an alias repeats occurs in the tree
again, with its number and at its first place. An alias inside the collection that it stands for ties a knot:
the collection holds itself, and the tree has a stub in its place. -/

namespace Conform.Yaml

/-- Where a node stands, its number and its anchor. A node has a greater number than the nodes in it. -/
structure Site where
  mark : Mark
  number : Nat
  anchor : Option (List Char) := none

inductive Shape where
  | sequence
  | mapping
  deriving DecidableEq, Repr

def Shape.title : Shape → String
  | sequence => "Sequence"
  | mapping => "Mapping"

inductive Node where
  | scalar (tag : Tag) (text : List Char) (site : Site)
  | sequence (tag : Tag) (items : List Node) (site : Site)
  | mapping (tag : Tag) (pairs : List (Node × Node)) (site : Site)
  /-- The stub of a collection around it, with its anchor. -/
  | knot (anchor : List Char) (shape : Shape) (tag : Tag) (site : Site)

namespace Node

def tag : Node → Tag
  | scalar t _ _ => t
  | sequence t _ _ => t
  | mapping t _ _ => t
  | knot _ _ t _ => t

def site : Node → Site
  | scalar _ _ s => s
  | sequence _ _ s => s
  | mapping _ _ s => s
  | knot _ _ _ s => s

def number (n : Node) : Nat := n.site.number

mutual

/-- A node and all the nodes of its tree. -/
def nodes : Node → List Node
  | .scalar tag cs site => [.scalar tag cs site]
  | .sequence tag items site => .sequence tag items site :: itemNodes items
  | .mapping tag pairs site => .mapping tag pairs site :: pairNodes pairs
  | .knot anchor shape tag site => [.knot anchor shape tag site]
termination_by structural n => n

def itemNodes : List Node → List Node
  | [] => []
  | n :: ns => n.nodes ++ itemNodes ns
termination_by structural ns => ns

def pairNodes : List (Node × Node) → List Node
  | [] => []
  | (k, n) :: ps => k.nodes ++ n.nodes ++ pairNodes ps
termination_by structural ps => ps

end

/-- The node of a tree that has an anchor. -/
def anchored? (root : Node) (anchor : List Char) : Option Node :=
  root.nodes.find? fun n => n.site.anchor == some anchor

/-- A node of a tree, for a stub the collection itself. -/
def untied (root : Node) : Node → Node
  | .knot anchor shape tag site => (root.anchored? anchor).getD (.knot anchor shape tag site)
  | n => n

mutual

/-- Whether the values of a tree, keys aside, lead to a stub and so on without end. -/
def isEndless : Node → Bool
  | .scalar _ _ _ => false
  | .sequence _ items _ => areItemsEndless items
  | .mapping _ pairs _ => arePairsEndless pairs
  | .knot _ _ _ _ => true
termination_by structural n => n

def areItemsEndless : List Node → Bool
  | [] => false
  | n :: ns => n.isEndless || areItemsEndless ns
termination_by structural ns => ns

def arePairsEndless : List (Node × Node) → Bool
  | [] => false
  | (_, n) :: ps => n.isEndless || arePairsEndless ps
termination_by structural ps => ps

end

/-! Keys. -/

/-- The text of a scalar as a key. -/
def keyText? : Node → Option String
  | scalar _ cs _ => some (String.ofList cs)
  | _ => none

def shownAs (kind : String) (tag : Tag) (value : List Char) : List Char :=
  enclose (kind ++ "Node(") ["tag=".toList ++ Text.quote tag.text, "value=".toList ++ value] ")"

mutual

/-- A node as the list of the nodes in a collection shows it. -/
def shown : Node → List Char
  | .scalar tag cs _ => shownAs "Scalar" tag (Text.quote cs)
  | .sequence tag items _ => shownAs "Sequence" tag (enclose "[" (shownItems items) "]")
  | .mapping tag pairs _ => shownAs "Mapping" tag (enclose "[" (shownPairs pairs) "]")
  | .knot _ shape tag _ => shownAs shape.title tag "[...]".toList
termination_by structural n => n

def shownItems : List Node → List (List Char)
  | [] => []
  | n :: ns => n.shown :: shownItems ns
termination_by structural ns => ns

def shownPairs : List (Node × Node) → List (List Char)
  | [] => []
  | (k, n) :: ps => enclose "(" [k.shown, n.shown] ")" :: shownPairs ps
termination_by structural ps => ps

end

/-- The text by which a node is named as a key: that of a scalar, or the list of the nodes in a collection. -/
def keyText : Node → String
  | .scalar _ cs _ => String.ofList cs
  | .sequence _ items _ => String.ofList (enclose "[" (shownItems items) "]")
  | .mapping _ pairs _ => String.ofList (enclose "[" (shownPairs pairs) "]")
  | .knot _ _ _ _ => "[...]"

end Node

def Site.spot (s : Site) : Spot := ⟨some (s.mark.line + 1 : Nat), some (s.mark.column + 1 : Nat)⟩

namespace Node

mutual

/-- The places of a node and of the nodes in it, parents first. A stub has none. -/
def places (pointer : String) : Node → List (String × Spot)
  | .scalar _ _ s => [(pointer, s.spot)]
  | .sequence _ items s => (pointer, s.spot) :: itemPlaces pointer 0 items
  | .mapping _ pairs s => (pointer, s.spot) :: pairPlaces pointer pairs
  | .knot _ _ _ _ => []
termination_by structural n => n

def itemPlaces (pointer : String) : Nat → List Node → List (String × Spot)
  | _, [] => []
  | i, n :: ns => n.places (Pointer.join pointer (.int i)) ++ itemPlaces pointer (i + 1) ns
termination_by structural _ ns => ns

def pairPlaces (pointer : String) : List (Node × Node) → List (String × Spot)
  | [] => []
  | (k, n) :: ps => n.places (Pointer.join pointer (.str k.keyText)) ++ pairPlaces pointer ps
termination_by structural ps => ps

end

/-- The source map of a tree; of several nodes at one pointer the last counts. -/
def sourceMap (n : Node) : SourceMap :=
  (n.places "").foldl (fun m e => m.put e.1 e.2) []

end Node

end Conform.Yaml
