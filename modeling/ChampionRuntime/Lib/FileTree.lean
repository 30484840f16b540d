import Mathlib.Data.List.Basic
import Mathlib.Data.List.Infix
import Mathlib.Tactic

/-!
# File systems with symbolic links

What `lstat` finds at every path, and the resolution of a text by the kernel,
which follows the links it meets up to a limit. A path whose resolution ends
somewhere else met a link on its way.
-/
namespace ChampionRuntime.Lib

inductive FileNode (β : Type) where
  | dir
  | file (bytes : β)
  | link (absolute : Bool) (target : List String)
  /-- a device, a pipe or a socket, with what its reader gets -/
  | special (bytes : Option β)
  deriving DecidableEq

namespace FileNode

variable {β : Type}

def isLink : FileNode β → Bool
  | link _ _ => true
  | _ => false

def isFile : FileNode β → Bool
  | file _ => true
  | _ => false

def bytes? : FileNode β → Option β
  | file bytes => some bytes
  | special bytes => bytes
  | _ => none

end FileNode

/-- The entries of a file system by their path from its root; what has an entry below
it is a directory. -/
structure FileTree (β : Type) where
  node : List String → Option (FileNode β)
  root : node [] = some .dir
  parent : ∀ dir name, node (dir ++ [name]) ≠ none → node dir = some .dir

namespace FileTree

variable {β : Type} (T : FileTree β)

/-- The pieces of a text, resolved from a directory; `follow` goes on at a link. -/
def walkWith (follow : List String → List String → Option (List String)) :
    List String → List String → Option (List String)
  | here, [] => some here
  | here, piece :: rest =>
    if piece = "" ∨ piece = "." then walkWith follow here rest
    else if piece = ".." then walkWith follow here.dropLast rest
    else
      match T.node (here ++ [piece]) with
      | some .dir => walkWith follow (here ++ [piece]) rest
      | some (.link absolute target) => follow (if absolute then [] else here) (target ++ rest)
      | some _ => if rest = [] then some (here ++ [piece]) else none
      | none => none

/-- Resolution with at most so many links on the way. -/
def walk : ℕ → List String → List String → Option (List String)
  | 0 => T.walkWith fun _ _ => none
  | links + 1 => T.walkWith (walk links)

variable (links : ℕ)

/-- `os.stat`: what stands where the pieces resolve to -/
def stat (start pieces : List String) : Option (FileNode β) :=
  (T.walk links start pieces).bind T.node

/-- `os.lstat`: the last piece is not followed -/
def lstat (start pieces : List String) : Option (FileNode β) :=
  match pieces.getLast? with
  | none => T.node start
  | some name => (T.walk links start pieces.dropLast).bind fun dir => T.node (dir ++ [name])

def IsPiece (piece : String) : Prop := piece ≠ "" ∧ piece ≠ "." ∧ piece ≠ ".."

/-- Nothing on the way to the entry is a link. -/
def NoLinkAbove (start path : List String) : Prop :=
  ∀ above, above ≠ [] → above <+: path → above ≠ path →
    ∀ node ∈ T.node (start ++ above), node.isLink = false

variable {T} {links} {start path : List String} {follow : List String → List String → Option (List String)}

theorem node_of_append {a b : List String} (h : T.node (a ++ b) ≠ none) (hne : b ≠ []) :
    T.node a = some .dir := by
  induction b using List.reverseRecOn with
  | nil => exact absurd rfl hne
  | append_singleton b name ih =>
    rw [← List.append_assoc] at h
    have hdir := T.parent (a ++ b) name h
    by_cases hb : b = []
    · rw [hb, List.append_nil] at hdir
      exact hdir
    · exact ih (by rw [hdir]; simp) hb

variable (T links) in
theorem walk_eq : ∃ follow, T.walk links = T.walkWith follow := by
  cases links with
  | zero => exact ⟨_, rfl⟩
  | succ links => exact ⟨_, rfl⟩

theorem walkWith_cons {piece : String} {rest : List String} (hpiece : IsPiece piece) :
    T.walkWith follow start (piece :: rest) =
      match T.node (start ++ [piece]) with
      | some .dir => T.walkWith follow (start ++ [piece]) rest
      | some (.link absolute target) => follow (if absolute then [] else start) (target ++ rest)
      | some _ => if rest = [] then some (start ++ [piece]) else none
      | none => none := by
  obtain ⟨hempty, hdot, hup⟩ := hpiece
  rw [walkWith, if_neg (by simp [hempty, hdot]), if_neg hup]

variable (links) in
theorem walk_of_node {node : FileNode β} (hnode : T.node (start ++ path) = some node)
    (hlink : node.isLink = false) (hpieces : ∀ piece ∈ path, IsPiece piece) :
    T.walk links start path = some (start ++ path) := by
  obtain ⟨follow, hwalk⟩ := walk_eq T links
  rw [hwalk]
  clear hwalk
  induction path generalizing start with
  | nil => rw [walkWith, List.append_nil]
  | cons piece rest ih =>
    obtain ⟨hpiece, hrest⟩ := List.forall_mem_cons.mp hpieces
    have hsplit : start ++ piece :: rest = start ++ [piece] ++ rest := by simp
    rw [walkWith_cons hpiece]
    by_cases hlast : rest = []
    · subst hlast
      rw [hnode]
      cases node with
      | dir => rw [walkWith]
      | link absolute target => cases hlink
      | file bytes => rfl
      | special bytes => rfl
    · rw [hsplit] at hnode ⊢
      rw [node_of_append (by rw [hnode]; simp) hlast]
      exact ih hnode hrest

/-- The pieces that name entries, among pieces that do not go up. -/
def names (pieces : List String) : List String :=
  pieces.filter fun piece => piece ≠ "" ∧ piece ≠ "."

theorem names_eq_self (h : ∀ piece ∈ path, IsPiece piece) : names path = path := by
  apply List.filter_eq_self.mpr
  intro piece hmem
  exact decide_eq_true ⟨(h piece hmem).1, (h piece hmem).2.1⟩

theorem walk_or_link {final : List String} (h : T.walk links start path = some final)
    (hup : ".." ∉ path) :
    final = start ++ names path ∨ ∃ above, above ≠ [] ∧ above <+: names path ∧
      ∃ node ∈ T.node (start ++ above), node.isLink = true := by
  obtain ⟨follow, hwalk⟩ := walk_eq T links
  rw [hwalk] at h
  clear hwalk
  induction path generalizing start with
  | nil =>
    rw [walkWith] at h
    left
    rw [names, List.filter_nil, List.append_nil]
    exact (Option.some.inj h).symm
  | cons piece rest ih =>
    obtain ⟨hpiece, hrest⟩ := not_or.mp (List.mem_cons.not.mp hup)
    by_cases hskip : piece = "" ∨ piece = "."
    · rw [walkWith, if_pos hskip] at h
      have hnames : names (piece :: rest) = names rest := by
        rcases hskip with rfl | rfl <;> simp [names]
      rw [hnames]
      exact ih hrest h
    have hnames : names (piece :: rest) = piece :: names rest := by
      rw [names, List.filter_cons_of_pos]
      · rfl
      · simpa using hskip
    have hsplit : start ++ piece :: names rest = start ++ [piece] ++ names rest := by simp
    rw [walkWith_cons ⟨fun h => hskip (.inl h), fun h => hskip (.inr h), fun h => hpiece h.symm⟩] at h
    rw [hnames]
    cases hnode : T.node (start ++ [piece]) with
    | none =>
      rw [hnode] at h
      cases h
    | some node =>
      rw [hnode] at h
      cases node with
      | dir =>
        rcases ih hrest h with hfinal | ⟨above, hne, habove, hlink⟩
        · exact .inl (hfinal.trans hsplit.symm)
        · refine .inr ⟨piece :: above, by simp, List.cons_prefix_cons.mpr ⟨rfl, habove⟩, ?_⟩
          rwa [show start ++ piece :: above = start ++ [piece] ++ above by simp]
      | link absolute target =>
        exact .inr ⟨[piece], by simp, List.cons_prefix_cons.mpr ⟨rfl, List.nil_prefix⟩, _, hnode, rfl⟩
      | file bytes =>
        dsimp only at h
        split_ifs at h with hlast
        exact .inl (by rw [hlast]; exact (Option.some.inj h).symm)
      | special bytes =>
        dsimp only at h
        split_ifs at h with hlast
        exact .inl (by rw [hlast]; exact (Option.some.inj h).symm)

theorem lstat_of_node {node : FileNode β} (hnode : T.node (start ++ path) = some node)
    (hpieces : ∀ piece ∈ path, IsPiece piece) : T.lstat links start path = some node := by
  unfold lstat
  cases hlast : path.getLast? with
  | none =>
    rw [List.getLast?_eq_none_iff.mp hlast, List.append_nil] at hnode
    exact hnode
  | some name =>
    have hsplit : path = path.dropLast ++ [name] := by
      rw [List.dropLast_append_getLast? name hlast]
    rw [hsplit, ← List.append_assoc] at hnode
    have hdir := T.parent (start ++ path.dropLast) name (by rw [hnode]; simp)
    have hwalk := walk_of_node links hdir rfl
      fun piece hmem => hpieces piece (List.mem_of_mem_dropLast hmem)
    dsimp only
    rw [hwalk, Option.bind_some, hnode]

theorem noLinkAbove_of_node (h : T.node (start ++ path) ≠ none) : T.NoLinkAbove start path := by
  rintro above - ⟨rest, rfl⟩ hproper node hnode
  have hrest : rest ≠ [] := by
    rintro rfl
    simp at hproper
  rw [← List.append_assoc] at h
  rw [node_of_append h hrest] at hnode
  cases hnode
  rfl

/-- A file that `stat` finds and `lstat` does not find to be a link stands at its path
exactly when nothing on the way is a link. -/
theorem stat_stands_iff {node : FileNode β} (hstat : T.stat links start path = some node)
    (hlstat : ∀ node ∈ T.lstat links start path, node.isLink = false)
    (hpieces : ∀ piece ∈ path, IsPiece piece) :
    T.node (start ++ path) = some node ↔ T.NoLinkAbove start path := by
  constructor
  · intro h
    exact noLinkAbove_of_node (by rw [h]; simp)
  · intro habove
    obtain ⟨final, hwalk, hnode⟩ := Option.bind_eq_some_iff.mp hstat
    have hup : ".." ∉ path := fun hmem => (hpieces ".." hmem).2.2 rfl
    rcases walk_or_link hwalk hup with rfl | ⟨above, hne, hprefix, linked, hlinked, hlink⟩
    · rwa [names_eq_self hpieces] at hnode
    · rw [names_eq_self hpieces] at hprefix
      by_cases hproper : above = path
      · subst hproper
        have hfound := hlstat linked (lstat_of_node hlinked hpieces)
        rw [hlink] at hfound
        cases hfound
      · rw [habove above hne hprefix hproper linked hlinked] at hlink
        cases hlink

end FileTree

end ChampionRuntime.Lib
