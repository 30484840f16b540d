import ChampionRuntime.Launch.ClusterLines
import ChampionRuntime.Lib.Assoc
import Mathlib.Data.List.ReduceOption

/-!
# Where the two readers of the cluster configuration agree

Both readers go through a file line by line and add to a map. As the renderer
refuses a repeated name, the maps are equal exactly when every line adds the same to
both.
-/
namespace ChampionRuntime.Launch

open Lib Lib.PyText

section Files

variable {ε : Type} {lines : List Text} {settings : Text → Settings}
  {assignment : Text → Except ε (Option (Text × Text))}

theorem line_of_name (hnd : (names (lines.flatMap settings)).Nodup) {line line' name : Text}
    (hline : line ∈ lines) (hline' : line' ∈ lines) (h : name ∈ names (settings line))
    (h' : name ∈ names (settings line')) : line = line' := by
  rw [names, List.map_flatMap, List.nodup_flatMap] at hnd
  have hsymm : Std.Symm (Function.onFun List.Disjoint fun line => (settings line).map Prod.fst) :=
    ⟨fun _ _ h => h.symm⟩
  by_contra hne
  exact hnd.2.forall hline hline' hne h h'

/-- Two readings of the lines give one map exactly when they agree on every line. -/
theorem lookup_agrees_iff (hnd : (names (lines.flatMap settings)).Nodup)
    (hfirst : ∀ line ∈ lines, ∀ name value, assignment line = .ok (some (name, value)) →
      ∃ value' rest, settings line = (name, value') :: rest) :
    (∃ found, lines.mapM assignment = .ok found ∧ ∀ name,
      found.reduceOption.reverse.lookup name = (lines.flatMap settings).lookup name) ↔
    ∀ line ∈ lines, ∃ found, assignment line = .ok found ∧ found.toList = settings line := by
  constructor
  · rintro ⟨found, hfound, hlookup⟩ line hline
    obtain ⟨own, -, hown⟩ := mem_of_mapM_eq_ok hfound hline
    refine ⟨own, hown, ?_⟩
    have hassigned : ∀ name value, (name, value) ∈ settings line → own = some (name, value) := by
      intro name value hmem
      have hvalue := (lookup_eq_some_iff_mem hnd).mpr (List.mem_flatMap.mpr ⟨line, hline, hmem⟩)
      rw [← hlookup] at hvalue
      obtain ⟨before, after, hsplit, -⟩ := List.lookup_eq_some_iff.mp hvalue
      have hreduced : (name, value) ∈ found.reduceOption := by
        rw [← List.mem_reverse, hsplit]
        simp
      obtain ⟨line', hline', hassign⟩ :=
        mem_result_of_mapM_eq_ok hfound (List.reduceOption_mem_iff.mp hreduced)
      obtain ⟨value', rest, hsettings⟩ := hfirst line' hline' name value hassign
      have hname : name ∈ names (settings line) := List.mem_map_of_mem (f := Prod.fst) hmem
      have hsame := line_of_name hnd hline hline' hname (by simp [hsettings, names])
      subst hsame
      exact Except.ok.inj (hown.symm.trans hassign)
    cases hcase : own with
    | none =>
      refine (List.eq_nil_iff_forall_not_mem.mpr fun entry hentry => ?_).symm
      have hsome := hassigned entry.1 entry.2 hentry
      simp [hcase] at hsome
    | some entry =>
      obtain ⟨name, value⟩ := entry
      subst hcase
      obtain ⟨value', rest, hsettings⟩ := hfirst line hline name value hown
      have hvalue := hassigned name value' (by simp [hsettings])
      have hrest : rest = [] := by
        refine List.eq_nil_iff_forall_not_mem.mpr fun other hother => ?_
        have hsome := hassigned other.1 other.2 (by simp [hsettings, hother])
        have hnodup : (names (settings line)).Nodup := by
          rw [names, List.map_flatMap, List.nodup_flatMap] at hnd
          exact hnd.1 line hline
        rw [hsettings, names, List.map_cons, List.nodup_cons] at hnodup
        obtain ⟨hname, -⟩ := Prod.mk.inj (Option.some.inj hsome)
        have hmem := List.mem_map_of_mem (f := Prod.fst) hother
        rw [← hname] at hmem
        exact hnodup.1 hmem
      rw [hsettings, hrest, hvalue]
      rfl
  · intro hall
    obtain ⟨found, hfound⟩ := exists_mapM_eq_ok fun line hline =>
      (hall line hline).imp fun _ h => h.1
    have hflat : found.reduceOption = lines.flatMap settings := by
      rw [mapM_eq_ok] at hfound
      clear hnd hfirst
      induction hfound with
      | nil => rfl
      | @cons line own lines found hown _ ih =>
        obtain ⟨hline, hlines⟩ := List.forall_mem_cons.mp hall
        obtain ⟨own', hown', hsettings⟩ := hline
        obtain rfl := Except.ok.inj (hown.symm.trans hown')
        rw [List.flatMap_cons, ← ih hlines, ← hsettings]
        cases own <;> rfl
    refine ⟨found, hfound, fun name => ?_⟩
    rw [hflat]
    exact (lookup_eq_of_perm (List.reverse_perm _).symm hnd name).symm

end Files

section Agreement

variable (S : Shell)

/-- What the file writes for a name, read off its newline-ended lines. -/
def writtenOn (name line : Text) : Option Text :=
  let line := line.dropWhile S.space
  if !isComment line && nameOf line == name then some (unquote (valueOf line)) else none

def written (text name : Text) : Option Text :=
  (splitOnChar '\n' text).findSome? (writtenOn S name)

/-- The variables that the function computes after the loop. -/
def computedNames : List Text :=
  ["CHAMPION_HOST_ARRAY", "CHAMPION_FABRIC_ARRAY", "CHAMPION_CHECKPOINT_LOCK_PATH",
    "CHAMPION_SIDECAR_LOCK_PATH"].map String.toList

def computedValue (value : Text → Option Text) (name : Text) : Option Text :=
  if name = "CHAMPION_HOST_ARRAY".toList then
    (value "CHAMPION_HOSTS".toList).bind fun hosts => (readArray hosts).head?
  else if name = "CHAMPION_FABRIC_ARRAY".toList then
    (value "CHAMPION_FABRIC_IPS".toList).bind fun fabric => (readArray fabric).head?
  else
    let root := (value "CHAMPION_ROOT".toList).getD S.root
    if name = "CHAMPION_CHECKPOINT_LOCK_PATH".toList then
      (value "CHAMPION_CHECKPOINT_LOCK".toList).map (lockPath root)
    else (value "CHAMPION_SIDECAR_LOCK".toList).map (lockPath root)

/-- A file that leaves nothing to the differences of the two readers. -/
structure PlainFile (text : Text) : Prop where
  lines : ∀ line ∈ splitOnChar '\n' text, CleanLine S line
  hosts : ∀ value, written S text "CHAMPION_HOSTS".toList = some value →
    (splitOnChar ',' value).getLast? ≠ some []
  fabric : ∀ value, written S text "CHAMPION_FABRIC_IPS".toList = some value →
    (splitOnChar ',' value).getLast? ≠ some []
  computed : ∀ name ∈ computedNames, ∀ value, written S text name = some value →
    computedValue S (written S text) name = some value

/-- The shell accepts the file, assigns the renderer's settings and no others, and
still holds them when the function returns. -/
def ShellAgrees (text : Text) (values : Settings) : Prop :=
  ∃ loaded, fleetLoadCluster S text = .ok loaded ∧
    (∀ name, loaded.assigned.lookup name = values.lookup name) ∧
    ∀ name value, values.lookup name = some value → loaded.value name = some value

variable {S}

theorem assignLine_eq (vars : Settings) (line : Text) : assignLine S vars line = (do
    let found ← lineAssignment S line
    pure (found.toList ++ vars)) := by
  simp only [assignLine, lineAssignment]
  split_ifs
  · rfl
  · unfold require
    split_ifs <;> rfl
  · unfold require
    split_ifs <;> rfl

theorem foldlM_assignLine {lines : List Text} : ∀ {vars out : Settings},
    lines.foldlM (assignLine S) vars = .ok out ↔ ∃ found,
      lines.mapM (lineAssignment S) = .ok found ∧ out = found.reduceOption.reverse ++ vars := by
  induction lines with
  | nil =>
    intro vars out
    simp [pure, Except.pure, eq_comm]
  | cons line lines ih =>
    intro vars out
    simp only [List.foldlM_cons, assignLine_eq, bind_eq_ok, pure_eq_ok, ih, List.mapM_cons]
    constructor
    · rintro ⟨_, ⟨own, hown, rfl⟩, found, hfound, rfl⟩
      refine ⟨own :: found, ⟨own, hown, found, hfound, rfl⟩, ?_⟩
      cases own <;> simp [List.reduceOption]
    · rintro ⟨_, ⟨own, hown, found, hfound, rfl⟩, rfl⟩
      refine ⟨_, ⟨own, hown, rfl⟩, found, hfound, ?_⟩
      cases own <;> simp [List.reduceOption]

theorem readLines_foldlM {text : Text} {out : Settings} :
    (readLines text).foldlM (assignLine S) [] = .ok out ↔ ∃ found,
      (splitOnChar '\n' text).mapM (fun line => lineAssignment S (dropNull line)) = .ok found ∧
        out = found.reduceOption.reverse := by
  have hall : (readLines text).foldlM (assignLine S) [] =
      ((splitOnChar '\n' text).map dropNull).foldlM (assignLine S) [] := by
    unfold readLines
    dsimp only
    split_ifs with hlast
    · obtain ⟨init, hinit⟩ := List.getLast?_eq_some_iff.mp hlast
      rw [hinit, List.dropLast_concat, List.foldlM_append]
      cases init.foldlM (assignLine S) [] <;> rfl
    · rfl
  rw [hall, foldlM_assignLine]
  refine exists_congr fun found => ?_
  rw [mapM_eq_ok, mapM_eq_ok, List.forall₂_map_left_iff, List.append_nil]

theorem writtenOn_eq {line : Text} (haccepted : ∀ part ∈ segments line, Accepted part)
    (hclean : CleanLine S line) (name : Text) :
    writtenOn S name line = (settingsIn line).lookup name := by
  obtain ⟨found, hfound, hsettings⟩ := (cleanLine_iff haccepted).mpr hclean
  unfold writtenOn
  dsimp only
  cases hclean with
  | blank h =>
    rw [lineAssignment_comment (by rw [h]; rfl)] at hfound
    obtain rfl := Except.ok.inj hfound
    rw [← hsettings, h]
    rfl
  | comment h hparts =>
    have hcomment : isComment (line.dropWhile S.space) = true := by simp [isComment, h]
    rw [lineAssignment_comment hcomment] at hfound
    obtain rfl := Except.ok.inj hfound
    rw [← hsettings, hcomment]
    rfl
  | setting name' value h hname hvalue hreadonly hdynamic =>
    have hequals := envName_no_equals hname
    have hsegments : segments value = [value] := splitWhere_of_none hvalue.oneLine
    rw [(settingsIn_dropWhile (S := S) line).1, h, settingsIn_setting hname hsegments,
      not_comment_setting hname, nameOf_append hequals, valueOf_append hequals, hvalue.stripped,
      List.lookup_cons]
    by_cases heq : name = name'
    · simp [heq]
    · simp [Ne.symm heq, beq_eq_false_iff_ne.mpr heq]

theorem findSome?_eq_lookup {lines : List Text} {settings : Text → Settings} {name : Text}
    {find : Text → Option Text} (h : ∀ line ∈ lines, find line = (settings line).lookup name) :
    lines.findSome? find = (lines.flatMap settings).lookup name := by
  induction lines with
  | nil => rfl
  | cons line lines ih =>
    obtain ⟨hline, hlines⟩ := List.forall_mem_cons.mp h
    rw [List.flatMap_cons, List.lookup_append, List.findSome?_cons, ← ih hlines, hline]
    cases (settings line).lookup name <;> rfl

theorem written_eq {text : Text} {values : Settings} (h : loadCluster text = .ok values)
    (hclean : ∀ line ∈ splitOnChar '\n' text, CleanLine S line) (name : Text) :
    written S text name = values.lookup name := by
  obtain ⟨haccepted, rfl, -⟩ := loadCluster_eq_ok h
  exact findSome?_eq_lookup fun line hline =>
    writtenOn_eq (haccepted line hline) (hclean line hline) name

theorem loop_agrees_iff {text : Text} {values : Settings} (h : loadCluster text = .ok values) :
    (∃ assigned, (readLines text).foldlM (assignLine S) [] = .ok assigned ∧
      ∀ name, assigned.lookup name = values.lookup name) ↔
    ∀ line ∈ splitOnChar '\n' text, CleanLine S line := by
  obtain ⟨haccepted, rfl, hnd, -⟩ := loadCluster_eq_ok h
  have hfirst : ∀ line ∈ splitOnChar '\n' text, ∀ name value,
      lineAssignment S (dropNull line) = .ok (some (name, value)) →
        ∃ value' rest, settingsIn line = (name, value') :: rest :=
    fun line hline name value => settingsIn_of_assignment (haccepted line hline)
  have hiff := lookup_agrees_iff hnd hfirst
  rw [← forall₂_congr fun line hline => cleanLine_iff (haccepted line hline), ← hiff]
  constructor
  · rintro ⟨assigned, hassigned, hlookup⟩
    obtain ⟨found, hfound, rfl⟩ := readLines_foldlM.mp hassigned
    exact ⟨found, hfound, hlookup⟩
  · rintro ⟨found, hfound, hlookup⟩
    exact ⟨_, readLines_foldlM.mpr ⟨found, hfound, rfl⟩, hlookup⟩

theorem readArray_length_iff {value : Text} (h : (splitOnChar ',' value).length = 4) :
    (readArray value).length = 4 ↔ (splitOnChar ',' value).getLast? ≠ some [] := by
  unfold readArray
  dsimp only
  split_ifs with hlast
  · simp [hlast, h]
  · simp [hlast, h]

theorem variableValue_of_lookup {vars : Settings} {name : String} {value : Text}
    (h : vars.lookup name.toList = some value) : variableValue S vars name = .ok value := by
  rw [variableValue, h]

theorem lookup_required {text : Text} {values : Settings} (h : loadCluster text = .ok values)
    (name : String) (hname : name.toList ∈ requiredSite) :
    values.lookup name.toList = some (setting values name) := by
  obtain ⟨-, -, -, hrequired, -⟩ := loadCluster_eq_ok h
  obtain ⟨⟨found, value⟩, hmem, rfl⟩ := List.mem_map.mp (hrequired _ hname)
  cases hlookup : values.lookup name.toList with
  | none =>
    have hne := List.lookup_eq_none_iff.mp hlookup _ hmem
    simp at hne
  | some value => rw [setting, hlookup, Option.getD_some]

/-- What the function assigned, from the renderer's settings. -/
def loadedOf (S : Shell) (values assigned : Settings) : Loaded :=
  let root := (values.lookup "CHAMPION_ROOT".toList).getD S.root
  { assigned
    hostArray := readArray (setting values "CHAMPION_HOSTS")
    fabricArray := readArray (setting values "CHAMPION_FABRIC_IPS")
    checkpointLockPath := lockPath root (setting values "CHAMPION_CHECKPOINT_LOCK")
    sidecarLockPath := lockPath root (setting values "CHAMPION_SIDECAR_LOCK") }

/-- The function succeeds on the renderer's settings unless a list ends in an empty
entry. -/
theorem fleetLoadCluster_eq_ok {text : Text} {values assigned : Settings}
    (h : loadCluster text = .ok values)
    (hloop : (readLines text).foldlM (assignLine S) [] = .ok assigned)
    (hsame : ∀ name, assigned.lookup name = values.lookup name) {loaded : Loaded} :
    fleetLoadCluster S text = .ok loaded ↔
      (splitOnChar ',' (setting values "CHAMPION_HOSTS")).getLast? ≠ some [] ∧
      (splitOnChar ',' (setting values "CHAMPION_FABRIC_IPS")).getLast? ≠ some [] ∧
      loaded = loadedOf S values assigned := by
  obtain ⟨-, -, -, -, hhosts, hfabric⟩ := loadCluster_eq_ok h
  have hbound : ∀ name : String, name.toList ∈ requiredSite →
      variableValue S assigned name = .ok (setting values name) := fun name hname =>
    variableValue_of_lookup (by rw [hsame, lookup_required h name hname])
  simp only [fourUnique, Bool.and_eq_true, beq_iff_eq] at hhosts hfabric
  rw [← readArray_length_iff hhosts.1, ← readArray_length_iff hfabric.1]
  simp only [fleetLoadCluster, h, hloop, ok_bind, hsame, hbound "CHAMPION_HOSTS" (by decide),
    hbound "CHAMPION_FABRIC_IPS" (by decide), hbound "CHAMPION_CHECKPOINT_LOCK" (by decide),
    hbound "CHAMPION_SIDECAR_LOCK" (by decide), bind_eq_ok, require_eq_ok, Bool.and_eq_true,
    beq_iff_eq, pure_eq_ok]
  constructor
  · rintro ⟨_, ⟨hosts, fabric⟩, rfl⟩
    exact ⟨hosts, fabric, rfl⟩
  · rintro ⟨hosts, fabric, rfl⟩
    exact ⟨(), ⟨hosts, fabric⟩, rfl⟩

theorem loop_of_fleetLoadCluster {text : Text} {values : Settings} {loaded : Loaded}
    (h : loadCluster text = .ok values) (hloaded : fleetLoadCluster S text = .ok loaded) :
    (readLines text).foldlM (assignLine S) [] = .ok loaded.assigned := by
  simp only [fleetLoadCluster, h, bind_eq_ok, pure_eq_ok] at hloaded
  obtain ⟨assigned, hassigned, _, -, _, -, _, -, _, -, _, -, rfl⟩ := hloaded
  exact hassigned

theorem value_loadedOf {text : Text} {values assigned : Settings}
    (h : loadCluster text = .ok values) (name : Text) :
    (loadedOf S values assigned).value name =
      if name ∈ computedNames then computedValue S (fun name => values.lookup name) name
      else assigned.lookup name := by
  unfold Loaded.value computedValue
  split_ifs with hhost hmem hfabric hmem hcheckpoint hmem hsidecar hmem hmem
  · dsimp only
    rw [lookup_required h "CHAMPION_HOSTS" (by decide)]
    rfl
  · exact absurd (hhost ▸ by decide) hmem
  · dsimp only
    rw [lookup_required h "CHAMPION_FABRIC_IPS" (by decide)]
    rfl
  · exact absurd (hfabric ▸ by decide) hmem
  · dsimp only
    rw [lookup_required h "CHAMPION_CHECKPOINT_LOCK" (by decide)]
    rfl
  · exact absurd (hcheckpoint ▸ by decide) hmem
  · dsimp only
    rw [lookup_required h "CHAMPION_SIDECAR_LOCK" (by decide)]
    rfl
  · exact absurd (hsidecar ▸ by decide) hmem
  · simp only [computedNames, List.map_cons, List.map_nil, List.mem_cons, List.not_mem_nil,
      hhost, hfabric, hcheckpoint, hsidecar, or_self] at hmem
  · rfl

end Agreement

theorem isSpace_of_posix (c : Char) (h : (inRange 0x9 0xd c || c == ' ') = true) :
    isSpace c = true := by
  simp only [isSpace, inRange, Bool.or_eq_true, Bool.and_eq_true, decide_eq_true_eq,
    beq_iff_eq] at h ⊢
  rcases h with h | rfl
  · omega
  · decide

def posixShell : Shell where
  space c := inRange 0x9 0xd c || c == ' '
  space_ascii _ _ := rfl
  space_le := isSpace_of_posix
  readonly name := ["BASHOPTS", "BASH_VERSINFO", "EUID", "PPID", "SHELLOPTS", "UID"].contains
    (String.ofList name)
  dynamic name := ["BASHPID", "BASH_SUBSHELL", "DIRSTACK", "EPOCHREALTIME", "EPOCHSECONDS",
    "FUNCNAME", "GROUPS", "HISTCMD", "LINENO", "RANDOM", "SECONDS", "SRANDOM"].contains
    (String.ofList name)
  environment _ := none
  root := "/opt/champion".toList

def fixtureSettings : Settings :=
  [("CHAMPION_HOSTS", "a,b,c,d"), ("CHAMPION_FABRIC_IPS", "e,f,g,h"),
    ("CHAMPION_RDMA_IFNAME", "fabric0"), ("CHAMPION_IB_HCA", "rdma0"),
    ("CHAMPION_RDMA_UVERBS", "/dev/uverbs0"), ("CHAMPION_RDMA_CM", "/dev/rdma_cm"),
    ("CHAMPION_MODEL_PATH", "/models"), ("CHAMPION_CHECKPOINT_LOCK", "c.json"),
    ("CHAMPION_SIDECAR_LOCK", "s.json"), ("CHAMPION_IMAGE_REF", "champion"),
    ("CHAMPION_IMAGE_ID", "sha256:a"), ("CHAMPION_API_HOST", "api"),
    ("CHAMPION_API_PORT", "8211"), ("CHAMPION_FLEET_LOCK", "/tmp/lock"),
    ("CHAMPION_RUN_ID", "run")].map fun e => (e.1.toList, e.2.toList)

def fixtureLine (ending : Text) (entry : Text × Text) : Text :=
  entry.1 ++ '=' :: (entry.2 ++ ending)

/-- One line for every setting, with the given text before its newline. -/
def fixtureText (ending : Text) : Text :=
  (fixtureSettings.map (fixtureLine ending)).flatMap fun line => line ++ ['\n']

theorem fixture_settings : ∀ e ∈ fixtureSettings,
    (isEnvName e.1 = true ∧ posixShell.readonly e.1 = false ∧ posixShell.dynamic e.1 = false ∧
      e.1 ∉ computedNames) ∧
    ('\x00' ∉ e.2 ∧ e.2.any isLineBreak = false ∧ strip e.2 = e.2 ∧ quoted '"' e.2 = false) ∧
    (splitOnChar ',' e.2).getLast? ≠ some [] ∧ '\n' ∉ e.1 ∧ '\n' ∉ e.2 := by
  decide +kernel

theorem fixture_names : ∀ e ∈ fixtureSettings, isEnvName e.1 = true ∧
    posixShell.readonly e.1 = false ∧ posixShell.dynamic e.1 = false ∧ e.1 ∉ computedNames :=
  fun e he => (fixture_settings e he).1

theorem fixtureText_lines {ending : Text} (h : '\n' ∉ ending) :
    splitOnChar '\n' (fixtureText ending) = fixtureSettings.map (fixtureLine ending) ++ [[]] := by
  refine splitOnChar_lines fun line hline => ?_
  obtain ⟨entry, hentry, rfl⟩ := List.mem_map.mp hline
  obtain ⟨-, -, -, hname, hvalue⟩ := fixture_settings entry hentry
  simp [fixtureLine, hname, hvalue, h]

theorem loadCluster_fixture : loadCluster (fixtureText []) = .ok fixtureSettings := by
  decide +kernel

theorem splitlines_fixture_return : splitlines (universalNewlines (fixtureText ['\r'])) =
    splitlines (universalNewlines (fixtureText [])) := by
  decide +kernel

theorem loadCluster_fixture_return : loadCluster (fixtureText ['\r']) = .ok fixtureSettings := by
  rw [loadCluster, splitlines_fixture_return, ← loadCluster, loadCluster_fixture]

theorem dropWhile_fixtureLine {ending : Text} {entry : Text × Text} (h : entry ∈ fixtureSettings) :
    (fixtureLine ending entry).dropWhile posixShell.space = fixtureLine ending entry := by
  obtain ⟨c, rest, hname, -, hchars⟩ := envName_cons (fixture_names entry h).1
  have hspace : posixShell.space c = false := by
    by_contra hspace
    have hle := posixShell.space_le c (by simpa using hspace)
    rw [(isNameChar_spec (hchars c (by simp [hname]))).1] at hle
    cases hle
  rw [fixtureLine, hname, List.cons_append, List.dropWhile_cons_of_neg (by simp [hspace])]

theorem cleanLine_fixture : ∀ line ∈ splitOnChar '\n' (fixtureText []),
    CleanLine posixShell line := by
  intro line hline
  rw [fixtureText_lines (by simp)] at hline
  rcases List.mem_append.mp hline with hline | hline
  · obtain ⟨entry, hentry, rfl⟩ := List.mem_map.mp hline
    obtain ⟨⟨hname, hreadonly, hdynamic, -⟩, ⟨hnull, hlines, hstrip, hquoted⟩, -⟩ :=
      fixture_settings entry hentry
    refine .setting entry.1 entry.2 ?_ hname ⟨hnull, ?_, hstrip, ?_⟩ hreadonly hdynamic
    · rw [dropWhile_fixtureLine hentry, fixtureLine, List.append_nil]
    · simpa using hlines
    · simp [Nested, hquoted]
  · rw [List.mem_singleton.mp hline]
    exact .blank rfl

theorem plainFile_fixture : PlainFile posixShell (fixtureText []) := by
  have hwritten := written_eq loadCluster_fixture cleanLine_fixture
  refine ⟨cleanLine_fixture, fun value hvalue => ?_, fun value hvalue => ?_, ?_⟩
  · rw [hwritten] at hvalue
    exact (fixture_settings _ (mem_of_lookup_eq_some hvalue)).2.2.1
  · rw [hwritten] at hvalue
    exact (fixture_settings _ (mem_of_lookup_eq_some hvalue)).2.2.1
  · intro name hname value hvalue
    rw [hwritten] at hvalue
    exact absurd hname (fixture_names _ (mem_of_lookup_eq_some hvalue)).2.2.2

end ChampionRuntime.Launch
