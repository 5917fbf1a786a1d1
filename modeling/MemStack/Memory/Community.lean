import MemStack.Util.DictCount
import MemStack.Util.EntryMap

/-!
This module contains the detection of communities in the graph of the entities by the method of Louvain
(`agi-stack/crates/core/src/community.rs`). Weights are exact. The loops are followed for a number of passes and a
number of levels that is given as fuel.
-/

namespace MemStack
namespace Memory

structure CommunityEdge where
  source : String
  target : String
  weight : ℚ
  deriving DecidableEq

structure Community where
  name : String
  members : List String
  memberCount : Nat
  deriving DecidableEq, Repr

structure IndexedEdge where
  a : Nat
  b : Nat
  weight : ℚ
  deriving DecidableEq

-- `BTreeMap<usize, f64>`.
abbrev Weights := EntryMap Nat ℚ

-- `*m.entry(k).or_insert(0.0) += w`.
def addWeight {κ : Type} [LinearOrder κ] (m : EntryMap κ ℚ) (k : κ) (w : ℚ) : EntryMap κ ℚ :=
  m.entry k 0 (· + w)

def gainEps : ℚ := 1 / 10 ^ 12

structure WGraph where
  n : Nat
  adj : List Weights
  degree : List ℚ
  m2 : ℚ

namespace WGraph

def addEdge (adj : List Weights) (e : IndexedEdge) : List Weights :=
  if e.a = e.b then
    adj.modify e.a (addWeight · e.a e.weight)
  else
    (adj.modify e.a (addWeight · e.b e.weight)).modify e.b (addWeight · e.a e.weight)

def degreeOf (neighbours : Weights) (i : Nat) : ℚ :=
  neighbours.entries.foldl (fun d e => if e.1 = i then d + e.2 + e.2 else d + e.2) 0

def build (n : Nat) (edges : List IndexedEdge) : WGraph :=
  let adj := edges.foldl addEdge (List.replicate n EntryMap.empty)
  let degree := adj.zipIdx.map fun e => degreeOf e.1 e.2
  { n, adj, degree, m2 := degree.sum }

def neighbours (g : WGraph) (i : Nat) : Weights :=
  g.adj.getD i EntryMap.empty

def degreeAt (g : WGraph) (i : Nat) : ℚ :=
  g.degree.getD i 0

structure Moving where
  comm : List Nat
  tot : List ℚ
  moved : Bool := false
  anyMove : Bool := false
  deriving DecidableEq

def weightTo (neighbours : Weights) (comm : List Nat) (i : Nat) : Weights :=
  neighbours.entries.foldl
    (fun wTo e => if e.1 = i then wTo else addWeight wTo (comm.getD e.1 0) e.2) EntryMap.empty

def bestOf (gain : Nat × ℚ → ℚ) (stay : Nat × ℚ) (candidates : List (Nat × ℚ)) : Nat × ℚ :=
  candidates.foldl (fun best e => if best.2 + gainEps < gain e then (e.1, gain e) else best) stay

def moveNode (g : WGraph) (s : Moving) (i : Nat) : Moving :=
  let ci := s.comm.getD i 0
  let di := g.degreeAt i
  let tot := s.tot.modify ci (· - di)
  let wTo := weightTo (g.neighbours i) s.comm i
  let gain (e : Nat × ℚ) : ℚ := e.2 - tot.getD e.1 0 * di / g.m2
  let stayGain := gain (ci, (wTo.get ci).getD 0)
  let best := (bestOf gain (ci, stayGain) wTo.entries).1
  { comm := s.comm.set i best
    tot := tot.modify best (· + di)
    moved := s.moved || best != ci
    anyMove := s.anyMove || best != ci }

def pass (g : WGraph) (s : Moving) : Moving :=
  (List.range g.n).foldl g.moveNode { s with moved := false }

def localMoveFrom (g : WGraph) : Nat → Moving → Option Moving
  | 0, _ => none
  | fuel + 1, s =>
    let s := g.pass s
    if s.moved then localMoveFrom g fuel s else some s

def start (g : WGraph) : Moving :=
  { comm := List.range g.n, tot := g.degree }

def localMove (fuel : Nat) (g : WGraph) : Option (List Nat × Bool) :=
  (g.localMoveFrom fuel g.start).map fun s => (s.comm, s.anyMove)

end WGraph

def relabel (comm : List Nat) : Dict Nat Nat :=
  comm.foldl (fun m c => m.setDefault c m.entries.length) Dict.empty

def compact (comm : List Nat) : List Nat × Nat :=
  (comm.map fun c => ((relabel comm).get c).getD 0, (relabel comm).entries.length)

def aggregateNode (g : WGraph) (labels : List Nat) (acc : EntryMap (Nat ×ₗ Nat) ℚ) (i : Nat)
    : EntryMap (Nat ×ₗ Nat) ℚ :=
  let cu := labels.getD i 0
  (g.neighbours i).entries.foldl
    (fun acc e =>
      if e.1 < i then
        acc
      else if e.1 = i then
        addWeight acc (toLex (cu, cu)) e.2
      else
        let cv := labels.getD e.1 0
        addWeight acc (if cu ≤ cv then toLex (cu, cv) else toLex (cv, cu)) e.2)
    acc

def aggregate (g : WGraph) (labels : List Nat) : List IndexedEdge :=
  ((List.range g.n).foldl (aggregateNode g labels) EntryMap.empty).entries.map fun e =>
    { a := (ofLex e.1).1, b := (ofLex e.1).2, weight := e.2 }

def indexNodes (nodes : List String) (edges : List CommunityEdge) : Dict String Nat :=
  (nodes ++ edges.flatMap fun e => [e.source, e.target]).foldl
    (fun idOf id => idOf.setDefault id idOf.entries.length) Dict.empty

def baseEdges (idOf : Dict String Nat) (edges : List CommunityEdge) : List IndexedEdge :=
  edges.map fun e =>
    { a := (idOf.get e.source).getD 0, b := (idOf.get e.target).getD 0, weight := e.weight }

def partitionFrom (passes : Nat) : Nat → WGraph → List Nat → Option (List Nat)
  | 0, _, _ => none
  | levels + 1, graph, currentOfOriginal =>
    match graph.localMove passes with
    | none => none
    | some (comm, moved) =>
      let labels := (compact comm).1
      let k := (compact comm).2
      let currentOfOriginal := currentOfOriginal.map (labels.getD · 0)
      if !moved ∨ k = graph.n then
        some currentOfOriginal
      else
        let graph := WGraph.build k (aggregate graph labels)
        if k = 1 then some currentOfOriginal else partitionFrom passes levels graph currentOfOriginal

def partition (fuel n : Nat) (edges : List IndexedEdge) : Option (List Nat) :=
  let graph := WGraph.build n edges
  if graph.m2 = 0 then some (List.range n) else partitionFrom fuel fuel graph (List.range n)

def groupsOf (ids : List String) (labels : List Nat) : EntryMap Nat (List String) :=
  (labels.zip ids).foldl (fun groups e => groups.entry e.1 [] (· ++ [e.2])) EntryMap.empty

def comesFirst (a b : List String) : Bool :=
  b.length < a.length ∨ (b.length = a.length ∧ a.headD "" ≤ b.headD "")

def detectCommunities (fuel : Nat) (nodes : List String) (edges : List CommunityEdge) (minCommunitySize : Nat)
    : Option (List Community) :=
  let idOf := indexNodes nodes edges
  let ids := idOf.keys
  if ids.length < 2 then
    some []
  else
    (partition fuel ids.length (baseEdges idOf edges)).map fun labels =>
      let groups := (groupsOf ids labels).entries.map Prod.snd
      let kept := (groups.filter (minCommunitySize ≤ ·.length)).map (·.insertionSort (· ≤ ·))
      (kept.insertionSort fun a b => comesFirst a b).zipIdx.map fun e =>
        { name := "Community_" ++ toString e.2, members := e.1, memberCount := e.1.length }

def modularityIndexed (g : WGraph) (comm : List Nat) : ℚ :=
  let ncomm := comm.max?.elim 0 (· + 1)
  let totC := (List.range g.n).foldl (fun totC i => totC.modify (comm.getD i 0) (· + g.degreeAt i))
    (List.replicate ncomm (0 : ℚ))
  let inC := (List.range g.n).foldl
    (fun inC i =>
      (g.neighbours i).entries.foldl
        (fun inC e =>
          if comm.getD e.1 0 = comm.getD i 0 then
            inC.modify (comm.getD i 0) (· + if i = e.1 then 2 * e.2 else e.2)
          else
            inC)
        inC)
    (List.replicate ncomm (0 : ℚ))
  (List.range ncomm).foldl (fun q c => q + (inC.getD c 0 / g.m2 - (totC.getD c 0 / g.m2) ^ 2)) 0

def assigned (idOf : Dict String Nat) (groups : List (List String)) : List (Option Nat) :=
  groups.zipIdx.foldl
    (fun comm group => group.1.foldl
      (fun comm id =>
        match idOf.get id with
        | some i => comm.set i (some group.2)
        | none => comm)
      comm)
    (List.replicate idOf.keys.length none)

def withSingletons (next : Nat) : List (Option Nat) → List Nat
  | [] => []
  | some c :: comm => c :: withSingletons next comm
  | none :: comm => next :: withSingletons (next + 1) comm

def modularity (nodes : List String) (edges : List CommunityEdge) (groups : List (List String)) : ℚ :=
  let idOf := indexNodes nodes edges
  let graph := WGraph.build idOf.keys.length (baseEdges idOf edges)
  if graph.m2 = 0 then 0
  else modularityIndexed graph (withSingletons groups.length (assigned idOf groups))

end Memory
end MemStack
