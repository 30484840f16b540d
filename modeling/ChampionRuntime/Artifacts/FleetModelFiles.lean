import ChampionRuntime.Artifacts.ModelLock
import ChampionRuntime.Launch.Fleet
import ChampionRuntime.Lib.PyLines

/-!
# The fleet's check of the model files

`fleet_verify_model_files` reads the lock line by line and compares what a hash
command prints on the host. What it accepts is compared with `verify_model.py`;
an entry is judged by its texts where the line reader and the remote shell take
them as they are.
-/
namespace ChampionRuntime.Artifacts

open Lib Lib.Json Lib.PyText Receipts Launch

/-- The two fields of a lock's entry the shell looks at. -/
structure LockRow where
  path : String
  digest : String
  deriving DecidableEq

/-- `row['path']` and `row['sha256']` -/
def lockRow : Value → Option LockRow
  | .obj fields =>
    match fields.lookup "path", fields.lookup "sha256" with
    | some (.str path), some (.str digest) => some ⟨path, digest⟩
    | _, _ => none
  | _ => none

/-- The entries the embedded program prints; it ends with an error when there are none. -/
def modelLockRows : Value → Option (List LockRow)
  | .obj lock =>
    match lock.lookup "integrity" with
    | some (.obj integrity) =>
      match integrity.lookup "status", integrity.lookup "files" with
      | some (.str "complete"), some (.arr (item :: items)) => (item :: items).mapM lockRow
      | _, _ => none
    | _ => none
  | _ => none

def LockRow.line (row : LockRow) : Text := row.path.toList ++ '|' :: row.digest.toList

/-- What `$(…)` has of the printed lines. -/
def modelLockOutput (rows : List LockRow) : Text :=
  dropTrailing (· == '\n')
    ((rows.flatMap fun row => row.line ++ ['\n']).filter (· != '\x00'))

/-- A character that the line reader, and a shell in the middle of a word, takes as it is. -/
def isPlain (c : Char) : Bool :=
  !"\x00\t\n\r \x22$&\x27()*;<>?[\\\x60\x7b|".toList.contains c

/-- The line reader and the remote shell take the texts of the entry as they are. -/
structure LockRow.Plain (row : LockRow) : Prop where
  path : ∀ c ∈ row.path.toList, isPlain c = true
  digest : ∀ c ∈ row.digest.toList, c ≠ '|' ∧ c ≠ '\n' ∧ c ≠ '\x00'

/-- The pieces of a path as the kernel resolves it. -/
def pieces (path : String) : List String := (splitOnChar '/' path.toList).map String.ofList

/-- What the controller and a host answer: the embedded program prints the lock's
entries, and the hash command prints the digest of what its path resolves to below the
model directory, or nothing. -/
structure HostAnswers (sha256 : Bytes → String) (T : FileTree Bytes) (links : ℕ) (root : List String)
    (lock : Value) (lockPath : Text) (index : ℕ) (answer : Probe → Reply) : Prop where
  refused : modelLockRows lock = none → (answer (.run (.modelLock lockPath))).ok = false
  listed : ∀ rows, modelLockRows lock = some rows →
    (answer (.run (.modelLock lockPath))).output = modelLockOutput rows
  digest : ∀ path : String, (∀ c ∈ path.toList, isPlain c = true) →
    (answer (.ask index (.artifactDigest path.toList))).output = [] ∨
      ∃ bytes, (T.stat links root (pieces path)).bind FileNode.bytes? = some bytes ∧
        (answer (.ask index (.artifactDigest path.toList))).output = (sha256 bytes).toList
  nonEmpty : ∀ bytes, sha256 bytes ≠ ""

/-- What an entry and the tree have to be like: a digest, a path that has a component and
does not leave the directory, no link on it and no device at its end. -/
structure LockRow.Sound (row : LockRow) (T : FileTree Bytes) (root : List String) (relative : Path) :
    Prop where
  digest : row.digest ≠ ""
  path : relativePath? row.path = some relative
  component : relative ≠ []
  links : ∀ above, above ≠ [] → above <+: parts relative →
    ∀ node ∈ T.node (root ++ above), node.isLink = false
  device : ∀ bytes, T.node (root ++ parts relative) ≠ some (.special bytes)

section Lines

variable {row : LockRow} {rows : List LockRow}

theorem LockRow.Plain.not_mem_path (h : row.Plain) {c : Char} (hc : isPlain c = false) :
    c ∉ row.path.toList := by
  intro hmem
  rw [h.path c hmem] at hc
  cases hc

theorem LockRow.Plain.not_newline (h : row.Plain) : '\n' ∉ row.line := by
  intro hmem
  rcases List.mem_append.mp hmem with hmem | hmem
  · exact h.not_mem_path (by decide) hmem
  · rcases List.mem_cons.mp hmem with heq | hmem
    · cases heq
    · exact (h.digest _ hmem).2.1 rfl

theorem LockRow.Plain.readTwo (h : row.Plain) :
    readTwo '|' row.line = (row.path.toList, row.digest.toList) := by
  have hline : row.line.takeWhile (· != '\n') = row.line := by
    apply List.takeWhile_eq_self_iff.mpr
    intro c hc
    rw [bne_iff_ne]
    rintro rfl
    exact h.not_newline hc
  have hpath : ∀ c ∈ row.path.toList, (c != '|') = true := by
    intro c hc
    rw [bne_iff_ne]
    rintro rfl
    exact h.not_mem_path (by decide) hc
  have hdigest : '|' ∉ row.digest.toList := fun hmem => (h.digest _ hmem).1 rfl
  have hlast : (row.digest.toList.getLast? == some '|') = false := by
    rw [beq_eq_false_iff_ne]
    intro hlast
    exact hdigest (List.mem_of_getLast? hlast)
  have hfirst : row.line.takeWhile (· != '|') = row.path.toList := by
    rw [LockRow.line, List.takeWhile_append_of_pos hpath]
    simp
  have hsecond : (row.line.dropWhile (· != '|')).tail = row.digest.toList := by
    rw [LockRow.line, List.dropWhile_append_of_pos hpath]
    simp
  simp only [Launch.readTwo, hline, hfirst, hsecond, hlast, Bool.false_and, Bool.false_eq_true,
    if_false]

theorem LockRow.Plain.no_nul (h : row.Plain) : row.line.filter (· != '\x00') = row.line := by
  rw [List.filter_eq_self]
  intro c hc
  rw [bne_iff_ne]
  rintro rfl
  rcases List.mem_append.mp hc with hc | hc
  · exact h.not_mem_path (by decide) hc
  · rcases List.mem_cons.mp hc with heq | hc
    · cases heq
    · exact (h.digest _ hc).2.2 rfl

/-- The line of a plain entry is one of those the loop reads, whatever the others are. -/
theorem LockRow.Plain.mem_lines (h : row.Plain) (hmem : row ∈ rows) :
    row.line ∈ splitOnChar '\n' (modelLockOutput rows) := by
  obtain ⟨before, after, rfl⟩ := List.append_of_mem hmem
  have hdigest : dropTrailing (· == '\n') row.digest.toList = row.digest.toList := by
    apply List.rdropWhile_eq_self_iff.mpr
    intro hnil hnewline
    exact (h.digest _ (List.getLast_mem hnil)).2.1 (eq_of_beq hnewline)
  generalize hlast : (after.flatMap fun row => row.line ++ ['\n']).filter (· != '\x00') = last
  obtain ⟨rest, hrest, hcase⟩ := dropTrailing_append_sep (p := (· == '\n')) (beq_self_eq_true '\n')
    hdigest last
  obtain ⟨first, hfirst, hends⟩ : ∃ first,
      (before.flatMap fun row => row.line ++ ['\n']).filter (· != '\x00') = first ∧
        (first = [] ∨ ∃ init, first = init ++ ['\n']) := by
    refine ⟨_, rfl, ?_⟩
    rcases List.eq_nil_or_concat before with rfl | ⟨init, row', rfl⟩
    · exact .inl rfl
    · exact .inr ⟨(init.flatMap fun row => row.line ++ ['\n']).filter (· != '\x00') ++
        row'.line.filter (· != '\x00'), by simp [List.filter_append]⟩
  have houtput : modelLockOutput (before ++ row :: after) = first ++ row.line ++ rest := by
    rw [modelLockOutput, List.flatMap_append, List.flatMap_cons, List.filter_append,
      List.filter_append, List.filter_append, hfirst, h.no_nul, hlast, LockRow.line]
    have hsplit : first ++ (row.path.toList ++ '|' :: row.digest.toList ++
        List.filter (· != '\x00') ['\n'] ++ last) =
        (first ++ row.path.toList) ++ '|' :: (row.digest.toList ++ '\n' :: last) := by simp
    rw [hsplit, dropTrailing_append (by decide), hrest]
    simp
  rw [houtput]
  exact mem_splitOnChar_between h.not_newline hends hcase

end Lines

section Accepts

variable {cluster : Cluster} {index : ℕ} {answer : Probe → Reply} {vars vars' : Vars}

theorem verifyModelFile_ok {line : Text}
    (h : (verifyModelFile cluster index line).outcome answer vars = (.ok (), vars')) :
    vars' = vars ∧ ((readTwo '|' line).1 = [] ∨
      (answer (.ask index (.artifactDigest (readTwo '|' line).1))).output = (readTwo '|' line).2) := by
  unfold verifyModelFile at h
  generalize readTwo '|' line = entry at h ⊢
  dsimp only at h
  split_ifs at h with hempty
  · cases h
    exact ⟨rfl, .inl (List.isEmpty_iff.mp hempty)⟩
  · simp only [Launch.ask, Routine.outcome_bind, Routine.outcome_perform, demand] at h
    split_ifs at h with heq
    · cases h
      exact ⟨rfl, .inr (eq_of_beq heq)⟩
    · simp [fleetDie] at h

theorem outcome_verifyModelFile {line : Text}
    (h : (answer (.ask index (.artifactDigest (readTwo '|' line).1))).output =
      (readTwo '|' line).2) :
    (verifyModelFile cluster index line).outcome answer vars = (.ok (), vars) := by
  unfold verifyModelFile
  generalize readTwo '|' line = entry at h ⊢
  dsimp only
  split
  · rfl
  · simp only [Launch.ask, Routine.outcome_bind, Routine.outcome_perform, demand]
    rw [if_pos (by simp [h])]
    rfl

theorem verifyModelFiles_ok {lines : List Text}
    (h : (lines.forM (verifyModelFile cluster index)).outcome answer vars = (.ok (), vars')) :
    ∀ line ∈ lines, (readTwo '|' line).1 = [] ∨
      (answer (.ask index (.artifactDigest (readTwo '|' line).1))).output = (readTwo '|' line).2 := by
  induction lines generalizing vars with
  | nil => simp
  | cons line lines ih =>
    change (verifyModelFile cluster index line >>= fun _ =>
      lines.forM (verifyModelFile cluster index)).outcome answer vars = _ at h
    rw [Routine.outcome_bind] at h
    cases hline : (verifyModelFile cluster index line).outcome answer vars with
    | mk result vars'' =>
      rw [hline] at h
      cases result with
      | error e => cases h
      | ok _ =>
        rw [List.forall_mem_cons]
        exact ⟨(verifyModelFile_ok hline).2, ih h⟩

end Accepts

theorem names_pieces (path : String) : FileTree.names (pieces path) = posixParts path := by
  unfold FileTree.names pieces posixParts
  apply List.filter_congr
  intro piece _
  by_cases hempty : piece = "" <;> by_cases hdot : piece = "." <;> simp [hempty, hdot]

/-- The components of a path that stays below are the names among its pieces. -/
theorem parts_of_relativePath {path : String} {relative : Path}
    (h : relativePath? path = some relative) : parts relative = posixParts path := by
  unfold relativePath? at h
  split_ifs at h
  generalize posixParts path = texts at h ⊢
  induction texts generalizing relative with
  | nil =>
    rw [List.mapM_nil] at h
    cases h
    rfl
  | cons text texts ih =>
    rw [List.mapM_cons] at h
    split_ifs at h with hname
    · simp only [Option.pure_def, Option.bind_eq_bind, Option.bind_some,
        Option.bind_eq_some_iff, Option.some.injEq] at h
      obtain ⟨rest, hrest, rfl⟩ := h
      rw [parts, List.map_cons, ← ih hrest]
      rfl
    · cases h

theorem not_mem_pieces {path : String} {relative : Path} (h : relativePath? path = some relative) :
    ".." ∉ pieces path := by
  intro hmem
  have hname : ".." ∈ FileTree.names (pieces path) := by
    rw [FileTree.names, List.mem_filter]
    exact ⟨hmem, by decide⟩
  rw [names_pieces, ← parts_of_relativePath h] at hname
  exact (isPiece_of_mem_parts hname).2.2 rfl

section Comparison

variable {sha256 : Bytes → String} {T : FileTree Bytes} {links : ℕ} {root : List String} {lock : Value}
  {lockPath : Text} {index : ℕ} {answer : Probe → Reply} {row : LockRow} {rows : List LockRow}

theorem LockRow.sound_of_stands (hnonEmpty : ∀ bytes, sha256 bytes ≠ "")
    (h : DigestStands sha256 T root row.path row.digest) : ∃ relative, row.Sound T root relative := by
  obtain ⟨relative, bytes, hpath, hne, hnode, hdigest⟩ := h
  refine ⟨relative, ?_, hpath, hne, ?_, ?_⟩
  · rw [← hdigest]
    exact hnonEmpty bytes
  · intro above habove hprefix node hfound
    by_cases hproper : above = parts relative
    · subst hproper
      rw [hnode] at hfound
      cases hfound
      rfl
    · exact FileTree.noLinkAbove_of_node (by rw [hnode]; simp) above habove hprefix hproper node hfound
  · intro special hspecial
    rw [hnode] at hspecial
    cases hspecial

theorem HostAnswers.stands (h : HostAnswers sha256 T links root lock lockPath index answer)
    {relative : Path} (hsound : row.Sound T root relative) (hplain : row.Plain)
    (hpass : (answer (.ask index (.artifactDigest row.path.toList))).output = row.digest.toList) :
    DigestStands sha256 T root row.path row.digest := by
  rcases h.digest row.path hplain.path with hnone | ⟨bytes, hbytes, houtput⟩
  · rw [hnone] at hpass
    have hempty : row.digest = "" := String.toList_injective hpass.symm
    exact absurd hempty hsound.digest
  · rw [houtput] at hpass
    obtain ⟨node, hstat, hread⟩ := Option.bind_eq_some_iff.mp hbytes
    obtain ⟨final, hwalk, hnode⟩ := Option.bind_eq_some_iff.mp hstat
    have hnames : FileTree.names (pieces row.path) = parts relative := by
      rw [names_pieces, parts_of_relativePath hsound.path]
    rcases FileTree.walk_or_link hwalk (not_mem_pieces hsound.path) with rfl | hlinked
    · rw [hnames] at hnode
      refine ⟨relative, bytes, hsound.path, hsound.component, ?_, String.toList_injective hpass⟩
      cases node with
      | file found =>
        cases hread
        exact hnode
      | dir => cases hread
      | link absolute target => cases hread
      | special found => exact absurd hnode (hsound.device found)
    · obtain ⟨above, hne, hprefix, linked, hfound, hlink⟩ := hlinked
      rw [hnames] at hprefix
      rw [hsound.links above hne hprefix linked hfound] at hlink
      cases hlink

theorem relative_ne_nil_of_sound {relative : Path} (hsound : row.Sound T root relative) :
    row.path.toList ≠ [] := by
  intro hempty
  have hpath : row.path = "" := String.toList_injective hempty
  have hrelative := hsound.path
  rw [hpath] at hrelative
  have hnil : relativePath? "" = some [] := by decide
  rw [hnil] at hrelative
  exact hsound.component (Option.some.inj hrelative).symm

/-- On a host it accepts, the comparison of `verify_lock` passes for every entry, up to
its size, exactly when every entry that is taken as it is is sound, and the digest of
any other entry stands all the same. -/
theorem fleet_accepts_iff_sound {cluster : Cluster} {vars vars' : Vars}
    (h : HostAnswers sha256 T links root lock lockPath index answer)
    (haccepts : (fleetVerifyModelFiles cluster index lockPath).outcome answer vars =
      (.ok (), vars')) :
    ∃ rows, modelLockRows lock = some rows ∧
      ((∀ row ∈ rows, ∃ size, verifyFile sha256 T links root ⟨row.path, row.digest, size⟩ =
          .ok ⟨row.path, row.digest, size⟩) ↔
        ∀ row ∈ rows, (row.Plain → ∃ relative, row.Sound T root relative) ∧
          (¬ row.Plain → DigestStands sha256 T root row.path row.digest)) := by
  simp only [fleetVerifyModelFiles, Launch.run, Routine.outcome_bind, Routine.outcome_perform,
    demand] at haccepts
  split_ifs at haccepts with hok
  · cases hrows : modelLockRows lock with
    | none =>
      rw [h.refused hrows] at hok
      cases hok
    | some rows =>
      refine ⟨rows, rfl, ?_⟩
      simp only [← digestStands_iff]
      have hlines := verifyModelFiles_ok haccepts
      rw [h.listed rows hrows] at hlines
      constructor
      · intro hstands row hrow
        exact ⟨fun _ => LockRow.sound_of_stands h.nonEmpty (hstands row hrow),
          fun _ => hstands row hrow⟩
      · intro hcondition row hrow
        by_cases hplain : row.Plain
        · obtain ⟨relative, hrelative⟩ := (hcondition row hrow).1 hplain
          have hline := hlines row.line (hplain.mem_lines hrow)
          rw [hplain.readTwo] at hline
          rcases hline with hempty | hpass
          · exact absurd hempty (relative_ne_nil_of_sound hrelative)
          · exact h.stands hrelative hplain hpass
        · exact (hcondition row hrow).2 hplain
  · simp [fleetDie] at haccepts

end Comparison

/-- A model directory with one file, `modèle%1`. -/
def oneFile : FileTree Bytes where
  node path :=
    if path = [] then some .dir
    else if path = ["modèle%1"] then some (.file [])
    else none
  root := rfl
  parent dir name h := by
    have hcase : dir ++ [name] = ["modèle%1"] := by
      by_contra hno
      apply h
      simp [hno]
    have hdir : dir = (dir ++ [name]).dropLast := by simp
    rw [hdir, hcase]
    rfl

def lockOf (path digest : String) : Value :=
  .obj [("integrity", .obj [("status", .str "complete"),
    ("files", .arr [.obj [("path", .str path), ("sha256", .str digest)]])])]

def emptyFileDigest : String := "e3b0c44298fc1c149afbf4c8996fb92427ae41e4649b934ca495991b7852b855"

def fileDigest (bytes : Bytes) : String :=
  if bytes = [] then emptyFileDigest
  else "0000000000000000000000000000000000000000000000000000000000000000"

theorem fileDigest_ne_empty (bytes : Bytes) : fileDigest bytes ≠ "" := by
  unfold fileDigest
  split <;> decide

/-- The controller prints the lock, and the host has the file `modèle%1`. -/
def hostAnswer (lock : Text) : Probe → Reply
  | .run (.modelLock _) => ⟨0, lock⟩
  | .ask _ (.artifactDigest relative) =>
    if relative = "modèle%1".toList then ⟨0, emptyFileDigest.toList⟩ else ⟨1, []⟩
  | _ => ⟨0, []⟩

theorem hostAnswer_answers {path digest : String}
    (hrows : modelLockRows (lockOf path digest) = some [⟨path, digest⟩]) :
    HostAnswers fileDigest oneFile 0 [] (lockOf path digest) [] 0
      (hostAnswer (modelLockOutput [⟨path, digest⟩])) where
  refused h := by
    rw [hrows] at h
    cases h
  listed rows h := by
    rw [hrows] at h
    cases h
    rfl
  digest relative _ := by
    by_cases hw : relative = "modèle%1"
    · subst hw
      exact .inr ⟨[], by decide, rfl⟩
    · left
      have hne : relative.toList ≠ "modèle%1".toList := fun h => hw (String.toList_injective h)
      exact congrArg Reply.output (if_neg hne)
  nonEmpty := fileDigest_ne_empty

def noCluster : Cluster := ⟨fun _ => none, [], [], [], []⟩

def noVars : Vars := ⟨false, false, false, false, [], [], []⟩

theorem plain_oneFile : LockRow.Plain ⟨"modèle%1", emptyFileDigest⟩ where
  path := List.all_eq_true.mp (by decide +kernel : "modèle%1".toList.all isPlain = true)
  digest c hc := by
    have hall : emptyFileDigest.toList.all
        (fun c => c != '|' && c != '\n' && c != '\x00') = true := by decide +kernel
    have hone := List.all_eq_true.mp hall c hc
    simpa [and_assoc] using hone

theorem outcome_oneFile : (fleetVerifyModelFiles noCluster 0 []).outcome
    (hostAnswer (modelLockOutput [⟨"modèle%1", emptyFileDigest⟩])) noVars = (.ok (), noVars) := by
  have hlines : splitOnChar '\n' (modelLockOutput [⟨"modèle%1", emptyFileDigest⟩]) =
      [LockRow.line ⟨"modèle%1", emptyFileDigest⟩] := by decide +kernel
  have hline : (verifyModelFile noCluster 0 (LockRow.line ⟨"modèle%1", emptyFileDigest⟩)).outcome
      (hostAnswer (modelLockOutput [⟨"modèle%1", emptyFileDigest⟩])) noVars = (.ok (), noVars) := by
    apply outcome_verifyModelFile
    rw [plain_oneFile.readTwo]
    exact congrArg Reply.output (if_pos rfl)
  simp only [fleetVerifyModelFiles, Launch.run, Routine.outcome_bind, Routine.outcome_perform]
  rw [show (hostAnswer (modelLockOutput [⟨"modèle%1", emptyFileDigest⟩])
    (.run (.modelLock []))).output = modelLockOutput [⟨"modèle%1", emptyFileDigest⟩] from rfl, hlines]
  change ((verifyModelFile noCluster 0 (LockRow.line ⟨"modèle%1", emptyFileDigest⟩) >>= fun _ =>
    pure PUnit.unit).outcome _ noVars) = _
  rw [Routine.outcome_bind, hline]
  rfl

theorem fleet_accepts_iff_sound_one :
    modelLockRows (lockOf "modèle%1" emptyFileDigest) = some [⟨"modèle%1", emptyFileDigest⟩] ∧
      ∃ size, verifyFile fileDigest oneFile 0 [] ⟨"modèle%1", emptyFileDigest, size⟩ =
        .ok ⟨"modèle%1", emptyFileDigest, size⟩ := by
  have hrows : modelLockRows (lockOf "modèle%1" emptyFileDigest) =
      some [⟨"modèle%1", emptyFileDigest⟩] := rfl
  obtain ⟨rows, hrows', hiff⟩ := fleet_accepts_iff_sound (hostAnswer_answers hrows) outcome_oneFile
  rw [hrows, Option.some.injEq] at hrows'
  subst hrows'
  refine ⟨hrows, hiff.mpr (fun row hrow => ?_) _ List.mem_cons_self⟩
  obtain rfl := List.mem_singleton.mp hrow
  refine ⟨fun _ => ⟨[⟨"modèle%1", by decide⟩], by decide, by decide, by simp, ?_, ?_⟩,
    fun h => absurd plain_oneFile h⟩
  · intro above hne hprefix node hnode
    obtain rfl : above = ["modèle%1"] := by
      rcases List.prefix_cons_iff.mp hprefix with rfl | ⟨rest, rfl, hrest⟩
      · exact absurd rfl hne
      · rw [List.prefix_nil.mp hrest]
    cases hnode
    rfl
  · intro bytes h
    cases h

/-- An entry without a digest is accepted though its file is missing, and so is an entry
without a path. -/
theorem fleet_accepts_missing :
    (fleetVerifyModelFiles noCluster 0 []).outcome
        (hostAnswer (modelLockOutput [⟨"gone", ""⟩])) noVars = (.ok (), noVars) ∧
      modelLockRows (lockOf "gone" "") = some [⟨"gone", ""⟩] ∧
      HostAnswers fileDigest oneFile 0 [] (lockOf "gone" "") [] 0
        (hostAnswer (modelLockOutput [⟨"gone", ""⟩])) ∧
      ¬ DigestStands fileDigest oneFile [] "gone" "" ∧
      (fleetVerifyModelFiles noCluster 0 []).outcome
        (hostAnswer (modelLockOutput [⟨"", emptyFileDigest⟩])) noVars = (.ok (), noVars) ∧
      ¬ DigestStands fileDigest oneFile [] "" emptyFileDigest := by
  refine ⟨rfl, rfl, hostAnswer_answers rfl, ?_, rfl, ?_⟩
  · rintro ⟨relative, bytes, -, -, -, hdigest⟩
    exact fileDigest_ne_empty bytes hdigest
  · rintro ⟨relative, bytes, hpath, hne, -, -⟩
    have hnil : relativePath? "" = some [] := by decide
    rw [hnil] at hpath
    exact hne (Option.some.inj hpath).symm

end ChampionRuntime.Artifacts
