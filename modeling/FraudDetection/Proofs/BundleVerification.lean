import FraudDetection.Bundle
import FraudDetection.Library.Outcomes

/-!
# Soundness and completeness of bundle verification

A directory that `verify_model_bundle` accepts has exactly the files of its metadata, with the
digests that the metadata lists. The directory that a metadata object and its artifacts make is
accepted, whatever JSON the calibration is, where the host lets the verifier read it.
-/

namespace FraudDetection.Proofs
open FraudDetection.Library
open FraudDetection.Bundle

variable {β : Type}

section artifacts

variable {name : PyString} {digest : PyValue}

/-- What a name says that passes: it is the text of a relative path, and of one with components
unless it is `.`. -/
lemma validateArtifactName_ok {n : PyString} (h : validateArtifactName name = .ok n) :
    n = name ∧ backslash ∉ name ∧ name ≠ metadataName ∧ (PurePosixPath.parse name).root = [] ∧
      (∀ c ∈ (PurePosixPath.parse name).tail, IsComponent c) ∧
      ((PurePosixPath.parse name).tail = [] → name = text ".") ∧
      ((PurePosixPath.parse name).tail ≠ [] → name = joinPath (PurePosixPath.parse name).tail) := by
  unfold validateArtifactName at h
  dsimp only at h
  split_ifs at h with hempty hpath hself
  cases h
  simp only [PurePosixPath.isAbsolute, PurePosixPath.parts, not_or, decide_not, Bool.not_eq_true',
    decide_eq_false_iff_not, not_not, List.any_eq_true, not_exists, not_and] at hempty hpath
  obtain ⟨hroot, hposix, hparts⟩ := hpath
  refine ⟨rfl, hempty.2, hself, hroot, fun c hc => ?_, fun hnil => ?_, eq_joinPath_of_canonical hroot hposix⟩
  · refine isComponent_of_mem_parse hc fun hdots => hparts c ?_ ?_
    · rw [hroot]
      exact List.mem_append_right _ hc
    · simp [hdots]
  · rw [← hposix, PurePosixPath.asPosix, if_pos ⟨hroot, hnil⟩]

lemma validateSha256_ok {d : PyString} (h : validateSha256 name digest = .ok d) :
    ∃ listed, digest = .str listed ∧ d = lower listed ∧ d.length = 64 ∧ d.all isHexCharacter = true := by
  unfold validateSha256 at h
  split at h
  · dsimp only at h
    split_ifs at h with hbad
    cases h
    simp only [not_or, not_not, Bool.not_eq_true', Bool.not_eq_false] at hbad
    exact ⟨_, rfl, rfl, hbad⟩
  · cases h

lemma lower_hex {d : PyString} (h : d.all isHexCharacter = true) : lower d = d := by
  unfold lower
  refine (List.map_congr_left fun c hc => ?_).trans (List.map_id d)
  have hhex := List.all_eq_true.mp h c hc
  simp only [isHexCharacter, Bool.or_eq_true, Bool.and_eq_true, decide_eq_true_eq] at hhex
  rw [if_neg (by omega)]
  rfl

lemma normalizeArtifact_ok {entry : PyString × PyValue} {result : PyString × PyString}
    (h : normalizeArtifact entry = .ok result) :
    validateArtifactName entry.1 = .ok entry.1 ∧ result.1 = entry.1 ∧
      validateSha256 entry.1 entry.2 = .ok result.2 := by
  obtain ⟨name, hname, h⟩ := bind_eq_ok_iff.mp h
  obtain ⟨digest, hdigest, h⟩ := bind_eq_ok_iff.mp h
  cases h
  obtain ⟨rfl, -⟩ := validateArtifactName_ok hname
  exact ⟨hname, rfl, hdigest⟩

/-- A normalized entry passes again and stays as it is. -/
lemma normalizeArtifact_normalized {entry : PyString × PyValue} {result : PyString × PyString}
    (h : normalizeArtifact entry = .ok result) : normalizeArtifact (result.1, .str result.2) = .ok result := by
  obtain ⟨hname, hfst, hdigest⟩ := normalizeArtifact_ok h
  obtain ⟨listed, -, -, hlength, hhex⟩ := validateSha256_ok hdigest
  have hagain : validateSha256 result.1 (.str result.2) = .ok result.2 := by
    simp [validateSha256, lower_hex hhex, hlength, hhex]
  have hname' : validateArtifactName result.1 = .ok result.1 := hfst ▸ hname
  unfold normalizeArtifact
  simp only [hname', ok_bind, hagain]
  rfl

end artifacts

section listing

variable {walked : List (List PyString × Node PyString β)} {path : List PyString} {names : List PyString}

def IsPlain : Node PyString β → Prop
  | .file _ | .dir _ _ => True
  | .link | .special => False

/-- The loop over the entries passes files and directories only, and keeps their paths. -/
lemma recordEntry_foldlM (walked : List (List PyString × Node PyString β)) (seen seen' : List PyString × List PyString) :
    walked.foldlM recordEntry seen = .ok seen' ↔ (∀ entry ∈ walked, IsPlain entry.2) ∧
      seen' = (seen.1 ++ walked.filterMap (fun entry => match entry.2 with
          | .file _ => some (joinPath entry.1)
          | _ => none),
        seen.2 ++ walked.filterMap fun entry => match entry.2 with
          | .dir _ _ => some (joinPath entry.1)
          | _ => none) := by
  induction walked generalizing seen with
  | nil =>
    simp only [List.foldlM_nil, List.not_mem_nil, false_implies, implies_true, List.filterMap_nil, List.append_nil,
      true_and]
    constructor
    · intro h
      cases h
      rfl
    · rintro rfl
      rfl
  | cons entry walked ih =>
    obtain ⟨path, node⟩ := entry
    rw [List.foldlM_cons, List.forall_mem_cons, bind_eq_ok_iff]
    cases node with
    | file content => simp [recordEntry, ih, IsPlain]
    | dir readable entries => simp [recordEntry, ih, IsPlain]
    | link => simp [recordEntry, IsPlain]
    | special => simp [recordEntry, IsPlain]

lemma checkEntries_ok {files directories : List PyString} :
    checkEntries names files directories = .ok () ↔
      (∀ name, name ∈ files ↔ name = metadataName ∨ name ∈ names) ∧
        ∀ name ∈ directories, ∃ listed ∈ names, name ∈ parentDirectories listed := by
  unfold checkEntries
  dsimp only
  simp only [ne_eq, List.length_eq_zero_iff, List.filter_eq_nil_iff, decide_eq_true_eq, not_not, List.mem_flatMap,
    List.forall_mem_cons]
  split_ifs with hmissing hextra
  · refine iff_of_false nofun fun ⟨hfiles, hdirectories⟩ => ?_
    rcases hextra with hextra | hextra
    · exact hextra fun name hname => List.mem_cons.mpr ((hfiles name).mp hname)
    · exact hextra hdirectories
  · rw [not_or, not_not, not_not] at hextra
    refine iff_of_true rfl ⟨fun name => ⟨fun hname => List.mem_cons.mp (hextra.1 name hname), ?_⟩, hextra.2⟩
    rintro (rfl | hname)
    · exact hmissing.1
    · exact hmissing.2 name hname
  · refine iff_of_false nofun fun ⟨hfiles, _⟩ => hmissing ⟨(hfiles metadataName).mpr (.inl rfl), ?_⟩
    exact fun name hname => (hfiles name).mpr (.inr hname)

lemma mem_parentLoop {reversed : List PyString} {name : PyString} :
    name ∈ parentLoop reversed ↔ ∃ below above, reversed = below ++ above ∧ above ≠ [] ∧
      name = joinPath above.reverse := by
  induction reversed with
  | nil => simp [parentLoop]
  | cons last rest ih =>
    rw [parentLoop, List.mem_cons, ih]
    constructor
    · rintro (rfl | ⟨below, above, rfl, hne, rfl⟩)
      · exact ⟨[], last :: rest, rfl, List.cons_ne_nil _ _, rfl⟩
      · exact ⟨last :: below, above, rfl, hne, rfl⟩
    · rintro ⟨below, above, he, hne, rfl⟩
      cases below with
      | nil => exact .inl (by rw [he, List.nil_append])
      | cons first below =>
        obtain ⟨-, rfl⟩ := List.cons.inj he
        exact .inr ⟨below, above, rfl, hne, rfl⟩

lemma mem_parentDirectories {parts : List PyString} {name : PyString} (h : ∀ c ∈ parts, IsComponent c) :
    name ∈ parentDirectories (joinPath parts) ↔
      ∃ above below, parts = above ++ below ∧ above ≠ [] ∧ below ≠ [] ∧ name = joinPath above := by
  unfold parentDirectories
  rw [parse_joinPath h, mem_parentLoop]
  dsimp only
  constructor
  · rintro ⟨below, above, he, hne, rfl⟩
    have hparts : parts.reverse ≠ [] := by
      intro hnil
      rw [hnil] at he
      exact hne (List.append_eq_nil_iff.mp he.symm).2
    obtain ⟨last, rest, hrest⟩ := List.exists_cons_of_ne_nil hparts
    rw [hrest, List.tail_cons] at he
    refine ⟨above.reverse, (last :: below).reverse, ?_, by simpa using hne, by simp, rfl⟩
    rw [← List.reverse_append, List.cons_append, ← he, ← hrest, List.reverse_reverse]
  · rintro ⟨above, below, rfl, hne, hbelow, rfl⟩
    obtain ⟨last, rest, hrest⟩ := List.exists_cons_of_ne_nil (List.reverse_ne_nil_iff.mpr hbelow)
    refine ⟨rest, above.reverse, ?_, by simpa using hne, by simp⟩
    rw [List.reverse_append, hrest, List.cons_append, List.tail_cons]

end listing

section checks

variable {sha : Sha256 β} {codec : JsonCodec β} {host : Host β} {root : Node PyString β}
  {loaded : List (PyString × PyValue)} {hashes : List (PyString × PyString)}

lemma isAscii_hexdigest (sha : Sha256 β) (data : β) : isAscii (sha.hexdigest data) = true := by
  unfold isAscii Sha256.hexdigest
  rw [List.all_map, List.all_eq_true]
  intro d _
  have hd := d.isLt
  change decide (hexDigit d < 128) = true
  rw [decide_eq_true_eq, hexDigit]
  split <;> omega

lemma compareDigest_true {digest : PyString} {data : β} :
    compareDigest digest (sha.hexdigest data) = .ok true ↔ digest = sha.hexdigest data := by
  unfold compareDigest
  rw [isAscii_hexdigest, Bool.and_true]
  split_ifs with hascii
  · simp
  · refine iff_of_false nofun fun he => hascii ?_
    rw [he]
    exact isAscii_hexdigest sha data

lemma loadMetadata_ok {content : β} {value : PyValue} : loadMetadata codec host content = .ok value ↔
    host.loads content = none ∧ codec.loads content = some value := by
  unfold loadMetadata
  cases host.loads content with
  | some exc => exact iff_of_false nofun fun h => nomatch h.1
  | none => cases codec.loads content <;> simp

lemma readMetadata_ok : readMetadata codec host root = .ok loaded ↔ host.probe = none ∧
    (∃ readable entries, root = .dir readable entries) ∧
    ∃ content, root.find [metadataName] = some (.file (some content)) ∧ host.loads content = none ∧
      codec.loads content = some (.dict loaded) := by
  simp only [← loadMetadata_ok]
  unfold readMetadata
  split
  · rename_i hprobe
    exact iff_of_false nofun fun h => nomatch hprobe.symm.trans h.1
  · rename_i readable entries hprobe
    rw [and_iff_right hprobe, and_iff_right ⟨readable, entries, rfl⟩]
    split
    · rename_i content hfind
      rw [hfind]
      simp only [Option.some.injEq, Node.file.injEq, exists_eq_left']
      split <;> simp_all
    · rename_i hfind
      rw [hfind]
      exact iff_of_false nofun fun ⟨content, hcontent, _⟩ => nomatch hcontent
    · rename_i hfind _
      exact iff_of_false nofun fun ⟨content, hcontent, _⟩ => hfind _ hcontent
  · rename_i hdir
    refine iff_of_false nofun ?_
    rintro ⟨-, ⟨readable, entries, rfl⟩, -⟩
    exact hdir readable entries rfl

lemma checkFingerprint_ok : checkFingerprint sha codec host loaded = .ok () ↔
    host.dumps (.dict (fingerprintPayload loaded)) = none ∧
      loaded.lookup fingerprintKey = some (.str (fingerprint sha codec (fingerprintPayload loaded))) := by
  unfold checkFingerprint
  split
  · rename_i claimed hclaimed
    rw [hclaimed, Option.some.injEq, PyValue.scalar.injEq, Scalar.str.injEq]
    cases host.dumps (.dict (fingerprintPayload loaded)) with
    | some exc => exact iff_of_false nofun fun h => nomatch h.1
    | none =>
      unfold fingerprint
      rw [and_iff_right rfl, ← compareDigest_true]
      dsimp only
      split <;> simp_all
  · rename_i hclaimed
    exact iff_of_false nofun fun h => hclaimed _ h.2

lemma normalizedHashes_ok : normalizedHashes loaded = .ok hashes ↔
    ∃ listed, loaded.lookup (text "artifact_sha256") = some (.dict listed) ∧ listed ≠ [] ∧
      listed.map normalizeArtifact = hashes.map .ok := by
  unfold normalizedHashes
  split
  · rename_i listed hlisted
    simp only [hlisted, Option.some.injEq, PyValue.dict.injEq, exists_eq_left', List.length_eq_zero_iff, ne_eq,
      ← mapM_eq_ok_iff]
    split_ifs with hempty
    · simp [hempty]
    · simp only [hempty, not_false_eq_true, true_and]
      split <;> simp_all
  · rename_i hlisted
    exact iff_of_false nofun fun ⟨listed, h, _⟩ => hlisted listed h

lemma checkCovered_ok {key : PyString} : checkCovered loaded hashes key = .ok () ↔
    ∃ name ∈ hashes.map Prod.fst, loaded.lookup key = some (.str name) := by
  unfold checkCovered
  split
  · rename_i name hname
    simp only [hname, Option.some.injEq, PyValue.scalar.injEq, Scalar.str.injEq]
    split_ifs with hin
    · exact iff_of_true rfl ⟨name, hin, rfl⟩
    · refine iff_of_false nofun ?_
      rintro ⟨name', hin', rfl⟩
      exact hin hin'
  · rename_i h
    refine iff_of_false nofun ?_
    rintro ⟨name, -, hname⟩
    cases h.symm.trans hname
  · rename_i h
    refine iff_of_false nofun ?_
    rintro ⟨name, -, hname⟩
    cases h.symm.trans hname
  · rename_i h _ _
    refine iff_of_false nofun ?_
    rintro ⟨name, -, hname⟩
    exact h _ hname

lemma checkDigest_ok {artifact : PyString × PyString} : checkDigest sha root artifact = .ok () ↔
    ∃ content, root.find (PurePosixPath.parse artifact.1).parts = some (.file (some content)) ∧
      artifact.2 = sha.hexdigest content := by
  unfold checkDigest
  split
  · rename_i content hcontent
    simp only [hcontent, Option.some.injEq, Node.file.injEq, exists_eq_left']
    rw [← compareDigest_true]
    split <;> simp_all
  · rename_i h
    exact iff_of_false nofun fun ⟨content, hcontent, _⟩ => h content hcontent

lemma listEntries_ok {seen : List PyString × List PyString} : listEntries host root = .ok seen ↔
    (host.rglob root).1.foldlM recordEntry ([], []) = .ok seen ∧ (host.rglob root).2 = none := by
  unfold listEntries
  split <;> simp_all

lemma verify_ok_iff {tree : BundleTree β} {value : PyValue} : verifyModelBundle sha codec host tree = .ok value ↔
    ∃ loaded, readMetadata codec host tree.root = .ok loaded ∧ checkFingerprint sha codec host loaded = .ok () ∧
      checkContract host loaded = .ok () ∧ ∃ hashes, normalizedHashes loaded = .ok hashes ∧
        checkCovered loaded hashes (text "onnx_file") = .ok () ∧
        checkCovered loaded hashes (text "state_dict_file") = .ok () ∧
        ∃ seen, listEntries host tree.root = .ok seen ∧
          checkEntries (hashes.map Prod.fst) seen.1 seen.2 = .ok () ∧
          (∀ artifact ∈ hashes, checkDigest sha tree.root artifact = .ok ()) ∧ value = .dict loaded := by
  unfold verifyModelBundle
  constructor
  · intro h
    obtain ⟨loaded, hread, h⟩ := bind_eq_ok_iff.mp h
    obtain ⟨⟨⟩, hfingerprint, h⟩ := bind_eq_ok_iff.mp h
    obtain ⟨⟨⟩, hcontract, h⟩ := bind_eq_ok_iff.mp h
    obtain ⟨hashes, hhashes, h⟩ := bind_eq_ok_iff.mp h
    obtain ⟨⟨⟩, honnx, h⟩ := bind_eq_ok_iff.mp h
    obtain ⟨⟨⟩, hstate, h⟩ := bind_eq_ok_iff.mp h
    obtain ⟨seen, hseen, h⟩ := bind_eq_ok_iff.mp h
    obtain ⟨⟨⟩, hentries, h⟩ := bind_eq_ok_iff.mp h
    obtain ⟨⟨⟩, hdigests, h⟩ := bind_eq_ok_iff.mp h
    exact ⟨loaded, hread, hfingerprint, hcontract, hashes, hhashes, honnx, hstate, seen, hseen, hentries,
      forM_eq_ok_iff.mp hdigests, (Except.ok.inj h).symm⟩
  · rintro ⟨loaded, hread, hfingerprint, hcontract, hashes, hhashes, honnx, hstate, seen, hseen, hentries, hdigests, rfl⟩
    rw [hread, ok_bind, hfingerprint, ok_bind, hcontract, ok_bind, hhashes, ok_bind, honnx, ok_bind, hstate, ok_bind,
      hseen, ok_bind, hentries, ok_bind, forM_eq_ok_iff.mpr hdigests, ok_bind]
    rfl

end checks

section soundness

variable {sha : Sha256 β} {codec : JsonCodec β} {host : Host β} {tree : BundleTree β}
  {loaded listed : List (PyString × PyValue)} {names : List PyString} {seen : List PyString × List PyString}
  {path : List PyString} {node : Node PyString β}

lemma components_of_visible (h : tree.root.visible path = some node) : ∀ c ∈ path, IsComponent c :=
  Node.names_of_find tree.named (Node.find_of_visible h)

lemma mem_rglob (hquiet : (host.rglob tree.root).2 = none) :
    (path, node) ∈ (host.rglob tree.root).1 ↔ path ≠ [] ∧ tree.root.visible path = some node := by
  rw [← Node.mem_walk_iff tree.unique]
  exact ⟨host.rglob_listed tree.root _, host.rglob_complete tree.root hquiet _⟩

lemma mem_filterMap_rglob (hquiet : (host.rglob tree.root).2 = none)
    {select : List PyString × Node PyString β → Option PyString} {name : PyString} :
    name ∈ (host.rglob tree.root).1.filterMap select ↔
      ∃ path node, path ≠ [] ∧ tree.root.visible path = some node ∧ select (path, node) = some name := by
  rw [List.mem_filterMap]
  constructor
  · rintro ⟨⟨path, node⟩, hin, hname⟩
    obtain ⟨hne, hvisible⟩ := (mem_rglob hquiet).mp hin
    exact ⟨path, node, hne, hvisible, hname⟩
  · rintro ⟨path, node, hne, hvisible, hname⟩
    exact ⟨(path, node), (mem_rglob hquiet).mpr ⟨hne, hvisible⟩, hname⟩

/-- The lists of files and directories that the loop over a tree leaves behind. -/
structure Listed (tree : BundleTree β) (seen : List PyString × List PyString) : Prop where
  files : ∀ name, name ∈ seen.1 ↔ ∃ path content, path ≠ [] ∧ tree.root.visible path = some (.file content) ∧
    name = joinPath path
  directories : ∀ name, name ∈ seen.2 ↔ ∃ path readable entries, path ≠ [] ∧
    tree.root.visible path = some (.dir readable entries) ∧ name = joinPath path

/-- The loop passes exactly if nothing raises and every entry that can be seen is a file or a
directory. -/
lemma listing_ok_iff : (∃ seen, listEntries host tree.root = .ok seen ∧ Listed tree seen) ↔
    (host.rglob tree.root).2 = none ∧
      ∀ path node, path ≠ [] → tree.root.visible path = some node → IsPlain node := by
  constructor
  · rintro ⟨seen, hseen, -⟩
    obtain ⟨hfold, hquiet⟩ := listEntries_ok.mp hseen
    have hplain := ((recordEntry_foldlM _ _ _).mp hfold).1
    exact ⟨hquiet, fun path node hne hvisible => hplain (path, node) ((mem_rglob hquiet).mpr ⟨hne, hvisible⟩)⟩
  · rintro ⟨hquiet, hplain⟩
    refine ⟨_, listEntries_ok.mpr ⟨(recordEntry_foldlM _ _ _).mpr ⟨?_, rfl⟩, hquiet⟩, ?_, ?_⟩
    · rintro ⟨path, node⟩ hin
      obtain ⟨hne, hvisible⟩ := (mem_rglob hquiet).mp hin
      exact hplain path node hne hvisible
    · intro name
      dsimp only
      rw [List.nil_append, mem_filterMap_rglob hquiet]
      constructor
      · rintro ⟨path, node, hne, hvisible, hname⟩
        cases node <;> cases hname
        exact ⟨path, _, hne, hvisible, rfl⟩
      · rintro ⟨path, content, hne, hvisible, rfl⟩
        exact ⟨path, .file content, hne, hvisible, rfl⟩
    · intro name
      dsimp only
      rw [List.nil_append, mem_filterMap_rglob hquiet]
      constructor
      · rintro ⟨path, node, hne, hvisible, hname⟩
        cases node <;> cases hname
        exact ⟨path, _, _, hne, hvisible, rfl⟩
      · rintro ⟨path, readable, entries, hne, hvisible, rfl⟩
        exact ⟨path, .dir readable entries, hne, hvisible, rfl⟩

lemma listed_of_listing (h : listEntries host tree.root = .ok seen) : Listed tree seen := by
  obtain ⟨hfold, hquiet⟩ := listEntries_ok.mp h
  obtain ⟨hplain, -⟩ := (recordEntry_foldlM _ _ _).mp hfold
  obtain ⟨seen', hseen', hlisted⟩ := listing_ok_iff.mpr ⟨hquiet, fun path node hne hvisible =>
    hplain (path, node) ((mem_rglob hquiet).mpr ⟨hne, hvisible⟩)⟩
  cases h.symm.trans hseen'
  exact hlisted

/-- The files and directories that were listed are those that the names account for. -/
structure TreeAccounted (tree : BundleTree β) (names : List PyString) : Prop where
  plain : ∀ path node, path ≠ [] → tree.root.visible path = some node → IsPlain node
  files : ∀ path content, path ≠ [] → tree.root.visible path = some (.file content) →
    joinPath path = metadataName ∨ joinPath path ∈ names
  present : ∀ name, name = metadataName ∨ name ∈ names →
    ∃ path content, path ≠ [] ∧ tree.root.visible path = some (.file content) ∧ name = joinPath path
  directories : ∀ path readable entries, path ≠ [] → tree.root.visible path = some (.dir readable entries) →
    ∃ below ≠ [], joinPath (path ++ below) ∈ names ∧
      ∃ content, tree.root.visible (path ++ below) = some (.file content)

lemma accounted_of_checks (hlisting : listEntries host tree.root = .ok seen)
    (hentries : checkEntries names seen.1 seen.2 = .ok ()) : TreeAccounted tree names := by
  have hlisted := listed_of_listing hlisting
  obtain ⟨hfiles, hdirectories⟩ := checkEntries_ok.mp hentries
  refine ⟨(listing_ok_iff.mp ⟨seen, hlisting, hlisted⟩).2, fun path content hne hvisible => ?_, fun name hname => ?_,
    fun path readable entries hne hvisible => ?_⟩
  · exact (hfiles _).mp ((hlisted.files _).mpr ⟨path, content, hne, hvisible, rfl⟩)
  · exact (hlisted.files name).mp ((hfiles name).mpr hname)
  · obtain ⟨name, hname, hparent⟩ :=
      hdirectories _ ((hlisted.directories _).mpr ⟨path, readable, entries, hne, hvisible, rfl⟩)
    obtain ⟨parts, content, -, hfile, rfl⟩ := (hlisted.files name).mp ((hfiles name).mpr (.inr hname))
    have hparts := components_of_visible hfile
    obtain ⟨above, below, rfl, -, hbelow, hjoin⟩ := (mem_parentDirectories hparts).mp hparent
    obtain rfl := joinPath_injective (components_of_visible hvisible)
      (fun c hc => hparts c (List.mem_append_left _ hc)) hjoin
    exact ⟨below, hbelow, hname, content, hfile⟩

/-- No directory of an accounted tree hides anything: a directory that could not be listed would
lie above a listed name, and the file of that name was listed. -/
lemma visible_of_find (ha : TreeAccounted tree names) (h : tree.root.find path = some node) :
    tree.root.visible path = some node := by
  cases hvisible : tree.root.visible path with
  | some node' => rw [← h, Node.find_of_visible hvisible]
  | none =>
    obtain ⟨before, name, after, entries, rfl, hbefore⟩ := Node.exists_unlisted h hvisible
    have hhidden : ∀ below : List PyString, below ≠ [] → tree.root.visible (before ++ below) = none := by
      intro below hbelow
      obtain ⟨c, rest, rfl⟩ := List.exists_cons_of_ne_nil hbelow
      rw [Node.visible_append, hbefore]
      rfl
    by_cases hroot : before = []
    · obtain ⟨path, content, hne, hfile, -⟩ := ha.present metadataName (.inl rfl)
      have hnone := hhidden path hne
      rw [hroot, List.nil_append] at hnone
      cases hnone.symm.trans hfile
    · obtain ⟨below, hbelow, -, content, hfile⟩ := ha.directories before false entries hroot hbefore
      cases (hhidden below hbelow).symm.trans hfile

/-- What an accepted directory is: `loaded` is its metadata and `listed` the digests in it. -/
structure VerifiedBundle (sha : Sha256 β) (codec : JsonCodec β) (tree : BundleTree β)
    (loaded listed : List (PyString × PyValue)) : Prop where
  metadata : ∃ content, tree.root.find [metadataName] = some (.file (some content)) ∧
    codec.loads content = some (.dict loaded)
  artifacts : loaded.lookup (text "artifact_sha256") = some (.dict listed)
  plain : ∀ path node, path ≠ [] → tree.root.find path = some node → IsPlain node
  files : ∀ path, (∃ content, tree.root.find path = some (.file content)) ↔
    path ≠ [] ∧ (∀ c ∈ path, IsComponent c) ∧ (joinPath path = metadataName ∨ joinPath path ∈ listed.map Prod.fst)
  directories : ∀ path readable entries, path ≠ [] → tree.root.find path = some (.dir readable entries) →
    ∃ below ≠ [], joinPath (path ++ below) ∈ listed.map Prod.fst ∧
      ∃ content, tree.root.find (path ++ below) = some (.file content)
  names : ∀ name ∈ listed.map Prod.fst, backslash ∉ name ∧ name ≠ metadataName ∧
    ∃ parts ≠ [], (∀ c ∈ parts, IsComponent c) ∧ name = joinPath parts
  digests : ∀ entry ∈ listed, ∃ parts digest content, entry = (joinPath parts, .str digest) ∧
    tree.root.find parts = some (.file (some content)) ∧ sha.hexdigest content = lower digest
  covered : ∀ key ∈ [text "onnx_file", text "state_dict_file"],
    ∃ name ∈ listed.map Prod.fst, loaded.lookup key = some (.str name)
  fingerprint : loaded.lookup fingerprintKey =
    some (.str (fingerprint sha codec (loaded.filter fun entry => entry.1 ≠ fingerprintKey)))

lemma names_of_normalized {hashes : List (PyString × PyString)}
    (h : listed.map normalizeArtifact = hashes.map .ok) : hashes.map Prod.fst = listed.map Prod.fst := by
  induction listed generalizing hashes with
  | nil =>
    rw [List.map_nil, eq_comm, List.map_eq_nil_iff] at h
    rw [h]
    rfl
  | cons entry listed ih =>
    obtain ⟨artifact, rest, rfl, hartifact, hrest⟩ := List.map_eq_cons_iff.mp h.symm
    rw [List.map_cons, List.map_cons, (normalizeArtifact_ok hartifact.symm).2.1, ih hrest.symm]

lemma mem_normalized {hashes : List (PyString × PyString)} (h : listed.map normalizeArtifact = hashes.map .ok)
    {entry : PyString × PyValue} (hentry : entry ∈ listed) :
    ∃ artifact ∈ hashes, normalizeArtifact entry = .ok artifact := by
  have hmem : normalizeArtifact entry ∈ hashes.map Except.ok := h ▸ List.mem_map_of_mem hentry
  obtain ⟨artifact, hin, he⟩ := List.mem_map.mp hmem
  exact ⟨artifact, hin, he.symm⟩

theorem verify_sound {value : PyValue} (h : verifyModelBundle sha codec host tree = .ok value) :
    ∃ loaded listed, value = .dict loaded ∧ VerifiedBundle sha codec tree loaded listed := by
  obtain ⟨loaded, hread, hfingerprint, -, hashes, hhashes, honnx, hstate, seen, hseen, hentries, hdigests, rfl⟩ :=
    verify_ok_iff.mp h
  obtain ⟨-, ⟨readable, entries, hroot⟩, content, hfound, -, hloads⟩ := readMetadata_ok.mp hread
  obtain ⟨listed, hlisted, -, hnormalized⟩ := normalizedHashes_ok.mp hhashes
  have hnames := names_of_normalized hnormalized
  have ha : TreeAccounted tree (listed.map Prod.fst) := hnames ▸ accounted_of_checks hseen hentries
  have hvisible : ∀ {path node}, tree.root.find path = some node → tree.root.visible path = some node :=
    fun hfind => visible_of_find ha hfind
  refine ⟨loaded, listed, rfl, ⟨content, hfound, hloads⟩, hlisted,
    fun path node hne hfind => ha.plain path node hne (hvisible hfind),
    fun path => ⟨?_, ?_⟩, fun path readable entries hne hfind => ?_, fun name hname => ?_, fun entry hentry => ?_, ?_,
    (checkFingerprint_ok.mp hfingerprint).2⟩
  · rintro ⟨content, hfind⟩
    have hne : path ≠ [] := by
      rintro rfl
      rw [Node.find_nil, hroot] at hfind
      cases hfind
    exact ⟨hne, components_of_visible (hvisible hfind), ha.files path content hne (hvisible hfind)⟩
  · rintro ⟨-, hpath, hname⟩
    obtain ⟨parts, content, -, hfile, hjoin⟩ := ha.present _ hname
    obtain rfl := joinPath_injective hpath (components_of_visible hfile) hjoin
    exact ⟨content, Node.find_of_visible hfile⟩
  · obtain ⟨below, hbelow, hname, content, hfile⟩ := ha.directories path readable entries hne (hvisible hfind)
    exact ⟨below, hbelow, hname, content, Node.find_of_visible hfile⟩
  · obtain ⟨parts, content, hne, hfile, hjoin⟩ := ha.present name (.inr hname)
    obtain ⟨entry, hentry, rfl⟩ := List.mem_map.mp hname
    obtain ⟨artifact, -, hartifact⟩ := mem_normalized hnormalized hentry
    obtain ⟨-, hslash, hself, -⟩ := validateArtifactName_ok (normalizeArtifact_ok hartifact).1
    exact ⟨hslash, hself, parts, hne, components_of_visible hfile, hjoin⟩
  · obtain ⟨artifact, hin, hartifact⟩ := mem_normalized hnormalized hentry
    obtain ⟨-, hfst, hdigest⟩ := normalizeArtifact_ok hartifact
    obtain ⟨digest, hvalue, hlower, -⟩ := validateSha256_ok hdigest
    obtain ⟨parts, held, -, hfile, hjoin⟩ := ha.present entry.1 (.inr (List.mem_map_of_mem hentry))
    obtain ⟨content, hcontent, hhex⟩ := checkDigest_ok.mp (hdigests artifact hin)
    have hparse : (PurePosixPath.parse artifact.1).parts = parts := by
      rw [hfst, hjoin, parse_joinPath (components_of_visible hfile)]
      rfl
    refine ⟨parts, digest, content, ?_, hparse ▸ hcontent, by rw [← hhex, hlower]⟩
    rw [← hjoin, ← hvalue]
  · intro key hkey
    rw [← hnames]
    rcases List.mem_cons.mp hkey with rfl | hkey
    · exact checkCovered_ok.mp honnx
    · rw [List.mem_singleton.mp hkey]
      exact checkCovered_ok.mp hstate

end soundness

section calibration

lemma freezeItems_eq (items : List PyValue) : freezeItems items = items.map freezeJson := by
  induction items with
  | nil => rfl
  | cons item items ih => rw [freezeItems, ih, List.map_cons]

lemma freezeEntries_eq (entries : List (PyString × PyValue)) :
    freezeEntries entries = entries.map fun entry => (entry.1, freezeJson entry.2) := by
  induction entries with
  | nil => rfl
  | cons entry entries ih => rw [freezeEntries, ih, List.map_cons]

lemma thawItems_eq (items : List PyValue) : thawItems items = items.map thawJson := by
  induction items with
  | nil => rfl
  | cons item items ih => rw [thawItems, ih, List.map_cons]

lemma thawEntries_eq (entries : List (PyString × PyValue)) :
    thawEntries entries = entries.map fun entry => (entry.1, thawJson entry.2) := by
  induction entries with
  | nil => rfl
  | cons entry entries ih => rw [thawEntries, ih, List.map_cons]

theorem thaw_freeze {value : PyValue} (h : value.isJson = true) : thawJson (freezeJson value) = value := by
  induction value using PyValue.induction_value with
  | scalar value => rfl
  | list items ih =>
    rw [PyValue.isJson, PyValue.isJsonItems_iff] at h
    rw [freezeJson, freezeItems_eq, thawJson, thawItems_eq, List.map_map]
    refine congrArg PyValue.list ((List.map_congr_left fun item hitem => ?_).trans (List.map_id items))
    exact ih item hitem (h item hitem)
  | dict entries ih =>
    have hentries := (PyValue.isJson_dict_iff.mp h).2
    rw [freezeJson, freezeEntries_eq, thawJson, thawEntries_eq, List.map_map]
    refine congrArg PyValue.dict ((List.map_congr_left fun entry hentry => ?_).trans (List.map_id entries))
    change (entry.1, thawJson (freezeJson entry.2)) = entry
    rw [ih entry hentry (hentries entry hentry)]
  | tuple items => cases h
  | proxy entries => cases h

end calibration

section completeness

variable {sha : Sha256 β} {codec : JsonCodec β} {host : Host β} {tree : BundleTree β}
  {arguments m : ModelBundleMetadata}

/-- What `__post_init__` ensures, for dicts without a key twice and a calibration that is JSON. -/
structure AcceptedMetadata (m : ModelBundleMetadata) : Prop where
  schema : m.schemaVersion = bundleSchemaVersion
  dtype : m.inputDtype = text "float32"
  device : m.exportDevice = text "cpu"
  exported : m.exportDtype = text "float32"
  required : ∀ name ∈ [m.onnxFile, m.stateDictFile], name ∈ m.artifactSha256.map Prod.fst
  artifacts : ∀ entry ∈ m.artifactSha256, ∃ digest, entry.2 = .str digest ∧
    normalizeArtifact entry = .ok (entry.1, digest)
  unique : (m.artifactSha256.map Prod.fst).Nodup
  calibration : (thawJson m.fp8Calibration).isJson = true

lemma accepted_of_postInit (h : arguments.postInit = .ok m) (hunique : (arguments.artifactSha256.map Prod.fst).Nodup)
    (hjson : arguments.fp8Calibration.isJson = true) : AcceptedMetadata m := by
  unfold ModelBundleMetadata.postInit at h
  dsimp only at h
  split_ifs at h with hempty hschema hfloat hmissing
  obtain ⟨normalized, hnormalized, h⟩ := bind_eq_ok_iff.mp h
  rw [mapM_eq_ok_iff] at hnormalized
  cases h
  simp only [not_or, not_not] at hschema hfloat hmissing
  have hnames := names_of_normalized hnormalized
  refine ⟨hschema, hfloat.1, hfloat.2.1, hfloat.2.2, fun name hname => ?_, fun entry hentry => ?_, ?_, ?_⟩
  · rw [List.filter_eq_nil_iff] at hmissing
    have hlisted : name ∈ arguments.artifactSha256.map Prod.fst := by simpa using hmissing name hname
    rw [← hnames] at hlisted
    rwa [List.map_map]
  · obtain ⟨artifact, hin, rfl⟩ := List.mem_map.mp hentry
    have hmem : (Except.ok artifact : Except ValueError _) ∈ arguments.artifactSha256.map normalizeArtifact :=
      hnormalized ▸ List.mem_map_of_mem hin
    obtain ⟨source, -, hsource⟩ := List.mem_map.mp hmem
    exact ⟨artifact.2, rfl, normalizeArtifact_normalized hsource⟩
  · rw [← hnames] at hunique
    rwa [List.map_map]
  · change (thawJson (freezeJson arguments.fp8Calibration)).isJson = true
    rw [thaw_freeze hjson]
    exact hjson

/-- The directory holds what `write` wrote and the artifacts with their digests, and nothing else
but the directories above these. -/
structure HoldsBundle (sha : Sha256 β) (codec : JsonCodec β) (m : ModelBundleMetadata) (tree : BundleTree β) : Prop where
  root : ∃ entries, tree.root = .dir true entries
  metadata : tree.root.find [metadataName] = some (.file (some (m.written sha codec)))
  artifacts : ∀ entry ∈ m.artifactSha256, ∃ parts content, entry = (joinPath parts, .str (sha.hexdigest content)) ∧
    tree.root.find parts = some (.file (some content))
  only : ∀ path node, path ≠ [] → tree.root.find path = some node →
    (∃ content, node = .file content ∧ (path = [metadataName] ∨ joinPath path ∈ m.artifactSha256.map Prod.fst)) ∨
    ∃ entries below content, node = .dir true entries ∧ below ≠ [] ∧
      joinPath (path ++ below) ∈ m.artifactSha256.map Prod.fst ∧
      tree.root.find (path ++ below) = some (.file content)

lemma HoldsBundle.visible (h : HoldsBundle sha codec m tree) {path : List PyString} {node : Node PyString β}
    (hfind : tree.root.find path = some node) : tree.root.visible path = some node := by
  cases hvisible : tree.root.visible path with
  | some node' => rw [← hfind, Node.find_of_visible hvisible]
  | none =>
    obtain ⟨before, name, after, entries, rfl, hbefore⟩ := Node.exists_unlisted hfind hvisible
    have hdir := Node.find_of_visible hbefore
    by_cases hroot : before = []
    · obtain ⟨entries', hentries'⟩ := h.root
      rw [hroot, Node.find_nil, hentries'] at hdir
      cases hdir
    · rcases h.only before _ hroot hdir with ⟨content, he, -⟩ | ⟨entries', below, content, he, -⟩ <;> cases he

lemma isJson_toDict (sha : Sha256 β) (codec : JsonCodec β) (ha : AcceptedMetadata m) :
    (m.toDict sha codec).isJson = true := by
  have hartifacts : (PyValue.dict (stableSort Prod.fst m.artifactSha256)).isJson = true := by
    refine PyValue.isJson_dict_iff.mpr ⟨?_, fun entry hentry => ?_⟩
    · exact ((stableSort_perm _ _).map Prod.fst).nodup_iff.mpr ha.unique
    obtain ⟨digest, hdigest, -⟩ := ha.artifacts entry ((stableSort_perm _ _).mem_iff.mp hentry)
    rw [hdigest]
    rfl
  rw [ModelBundleMetadata.toDict]
  refine PyValue.isJson_dict_iff.mpr ⟨?_, fun entry hentry => ?_⟩
  · simp only [ModelBundleMetadata.payload, List.cons_append, List.nil_append, List.map_cons, List.map_nil]
    decide
  simp only [ModelBundleMetadata.payload, List.cons_append, List.nil_append, List.mem_cons, List.not_mem_nil,
    or_false] at hentry
  rcases hentry with rfl | rfl | rfl | rfl | rfl | rfl | rfl | rfl | rfl | rfl | rfl | rfl | rfl
  case inr.inr.inr.inr.inl => exact hartifacts
  case inr.inr.inr.inr.inr.inr.inr.inr.inr.inl => exact ha.calibration
  all_goals rfl

def dictEntries (sha : Sha256 β) (codec : JsonCodec β) (m : ModelBundleMetadata) : List (PyString × PyValue) :=
  m.payload ++ [(fingerprintKey, PyValue.str (fingerprint sha codec m.payload))]

def loadedEntries (sha : Sha256 β) (codec : JsonCodec β) (m : ModelBundleMetadata) : List (PyString × PyValue) :=
  stableSort Prod.fst ((dictEntries sha codec m).map fun entry => (entry.1, entry.2.sortKeys))

lemma sortKeys_toDict : (m.toDict sha codec).sortKeys = .dict (loadedEntries sha codec m) :=
  PyValue.sortKeys_dict _

lemma lookup_loaded (key : PyString) :
    (loadedEntries sha codec m).lookup key = ((dictEntries sha codec m).lookup key).map PyValue.sortKeys :=
  PyValue.lookup_sorted key _

lemma checkFingerprint_loaded (hdumps : host.dumps (.dict (fingerprintPayload (loadedEntries sha codec m))) = none) :
    checkFingerprint sha codec host (loadedEntries sha codec m) = .ok () := by
  rw [checkFingerprint_ok, and_iff_right hdumps, lookup_loaded]
  have hclaimed : (dictEntries sha codec m).lookup fingerprintKey =
      some (.str (fingerprint sha codec m.payload)) := by rfl
  have hpayload : (dictEntries sha codec m).filter (fun entry => entry.1 ≠ fingerprintKey) = m.payload := by rfl
  have hsame : fingerprint sha codec (fingerprintPayload (loadedEntries sha codec m)) =
      fingerprint sha codec m.payload := by
    unfold fingerprint loadedEntries fingerprintPayload
    rw [PyValue.sortKeys_erase, hpayload]
  rw [hclaimed, hsame]
  rfl

lemma checkContract_loaded (ha : AcceptedMetadata m) : checkContract host (loadedEntries sha codec m) = .ok () := by
  have hschema : (dictEntries sha codec m).lookup (text "schema_version") =
      some (.scalar (.int m.schemaVersion)) := by rfl
  have hdtype : (dictEntries sha codec m).lookup (text "input_dtype") = some (.str m.inputDtype) := by rfl
  have hdevice : (dictEntries sha codec m).lookup (text "export_device") = some (.str m.exportDevice) := by rfl
  have hexported : (dictEntries sha codec m).lookup (text "export_dtype") = some (.str m.exportDtype) := by rfl
  unfold checkContract
  simp only [lookup_loaded, hschema, hdtype, hdevice, hexported, Option.map_some, ha.schema, ha.dtype, ha.device,
    ha.exported]
  rfl

def sortedHashes (m : ModelBundleMetadata) : List (PyString × PyString) :=
  (stableSort Prod.fst m.artifactSha256).map fun entry => (entry.1, match entry.2 with
    | .scalar (.str digest) => digest
    | _ => [])

lemma mem_sortedHashes (ha : AcceptedMetadata m) {artifact : PyString × PyString} :
    artifact ∈ sortedHashes m ↔ (artifact.1, PyValue.str artifact.2) ∈ m.artifactSha256 := by
  unfold sortedHashes
  rw [List.mem_map]
  constructor
  · rintro ⟨entry, hentry, rfl⟩
    have hin := (stableSort_perm _ _).mem_iff.mp hentry
    obtain ⟨digest, hdigest, -⟩ := ha.artifacts entry hin
    rw [hdigest]
    dsimp only
    rwa [← hdigest]
  · intro hin
    exact ⟨_, (stableSort_perm _ _).mem_iff.mpr hin, rfl⟩

lemma sortedHashes_names (m : ModelBundleMetadata) {name : PyString} :
    name ∈ (sortedHashes m).map Prod.fst ↔ name ∈ m.artifactSha256.map Prod.fst := by
  unfold sortedHashes
  rw [List.map_map]
  exact ((stableSort_perm Prod.fst m.artifactSha256).map Prod.fst).mem_iff

lemma normalizedHashes_loaded (ha : AcceptedMetadata m) :
    normalizedHashes (loadedEntries sha codec m) = .ok (sortedHashes m) := by
  have hlookup : (dictEntries sha codec m).lookup (text "artifact_sha256") =
      some (.dict (stableSort Prod.fst m.artifactSha256)) := by rfl
  have hstrings : (stableSort Prod.fst m.artifactSha256).map (fun entry => (entry.1, entry.2.sortKeys)) =
      stableSort Prod.fst m.artifactSha256 := by
    refine (List.map_congr_left fun entry hentry => ?_).trans (List.map_id _)
    obtain ⟨digest, hdigest, -⟩ := ha.artifacts entry ((stableSort_perm _ _).mem_iff.mp hentry)
    rw [hdigest]
    change (entry.1, PyValue.str digest) = entry
    rw [← hdigest]
  have hsorted : stableSort Prod.fst (stableSort Prod.fst m.artifactSha256) = stableSort Prod.fst m.artifactSha256 := by
    simpa using stableSort_append_left Prod.fst m.artifactSha256 []
  refine normalizedHashes_ok.mpr ⟨stableSort Prod.fst m.artifactSha256, ?_, ?_, ?_⟩
  · rw [lookup_loaded, hlookup, Option.map_some, PyValue.sortKeys_dict, hstrings, hsorted]
  · intro hempty
    have honnx := (sortedHashes_names m).mpr (ha.required m.onnxFile List.mem_cons_self)
    rw [sortedHashes, hempty] at honnx
    exact List.not_mem_nil honnx
  · unfold sortedHashes
    rw [List.map_map]
    refine List.map_congr_left fun entry hentry => ?_
    obtain ⟨digest, hdigest, hnormal⟩ := ha.artifacts entry ((stableSort_perm _ _).mem_iff.mp hentry)
    rw [hnormal]
    simp only [Function.comp_apply, hdigest]

lemma checkEntries_holds (h : HoldsBundle sha codec m tree) {seen : List PyString × List PyString}
    (hlisted : Listed tree seen) :
    checkEntries ((sortedHashes m).map Prod.fst) seen.1 seen.2 = .ok () := by
  have hsingle : joinPath [metadataName] = metadataName := by simp [joinPath, List.intercalate]
  refine checkEntries_ok.mpr ⟨fun name => ⟨?_, ?_⟩, fun name hname => ?_⟩
  · intro hname
    obtain ⟨path, content, hne, hfile, rfl⟩ := (hlisted.files name).mp hname
    rcases h.only path _ hne (Node.find_of_visible hfile) with ⟨_, _, rfl | hin⟩ | ⟨_, _, _, he, -⟩
    · exact .inl hsingle
    · exact .inr ((sortedHashes_names m).mpr hin)
    · cases he
  · rintro (rfl | hin)
    · exact (hlisted.files _).mpr ⟨[metadataName], _, List.cons_ne_nil _ _, h.visible h.metadata, hsingle.symm⟩
    · obtain ⟨entry, hentry, rfl⟩ := List.mem_map.mp ((sortedHashes_names m).mp hin)
      obtain ⟨parts, content, rfl, hfind⟩ := h.artifacts entry hentry
      refine (hlisted.files _).mpr ⟨parts, some content, ?_, h.visible hfind, rfl⟩
      rintro rfl
      obtain ⟨entries, hroot⟩ := h.root
      rw [Node.find_nil, hroot] at hfind
      cases hfind
  · obtain ⟨path, readable, entries, hne, hdir, rfl⟩ := (hlisted.directories name).mp hname
    rcases h.only path _ hne (Node.find_of_visible hdir) with ⟨_, he, -⟩ | ⟨_, below, content, -, hbelow, hin, hfile⟩
    · cases he
    · refine ⟨_, (sortedHashes_names m).mpr hin, ?_⟩
      have hcomponents := components_of_visible (h.visible hfile)
      exact (mem_parentDirectories hcomponents).mpr ⟨path, below, rfl, hne, hbelow, rfl⟩

/-- The host raises nothing while the verifier reads the bundle of these metadata. -/
structure HostReads (sha : Sha256 β) (codec : JsonCodec β) (host : Host β) (m : ModelBundleMetadata)
    (tree : BundleTree β) : Prop where
  probe : host.probe = none
  loads : host.loads (m.written sha codec) = none
  dumps : host.dumps (.dict (fingerprintPayload (loadedEntries sha codec m))) = none
  rglob : (host.rglob tree.root).2 = none

theorem verify_complete (ha : AcceptedMetadata m) (h : HoldsBundle sha codec m tree)
    (hreads : HostReads sha codec host m tree) :
    verifyModelBundle sha codec host tree = .ok (m.toDict sha codec).sortKeys := by
  have hjson := PyValue.isJson_sortKeys (isJson_toDict sha codec ha)
  obtain ⟨entries, hroot⟩ := h.root
  have hread : readMetadata codec host tree.root = .ok (loadedEntries sha codec m) := by
    refine readMetadata_ok.mpr ⟨hreads.probe, ⟨true, entries, hroot⟩, _, h.metadata, hreads.loads, ?_⟩
    rw [ModelBundleMetadata.written, codec.loads_indented _ hjson, sortKeys_toDict]
  have honnx : (dictEntries sha codec m).lookup (text "onnx_file") = some (.str m.onnxFile) := by rfl
  have hstate : (dictEntries sha codec m).lookup (text "state_dict_file") = some (.str m.stateDictFile) := by rfl
  obtain ⟨seen, hseen, hlisted⟩ := listing_ok_iff.mpr ⟨hreads.rglob, fun path node hne hvisible => by
    rcases h.only path node hne (Node.find_of_visible hvisible) with ⟨_, rfl, -⟩ | ⟨_, _, _, rfl, -⟩
    · trivial
    · trivial⟩
  refine verify_ok_iff.mpr ⟨loadedEntries sha codec m, hread, checkFingerprint_loaded hreads.dumps, checkContract_loaded ha,
    sortedHashes m, normalizedHashes_loaded ha, ?_, ?_, seen, hseen, checkEntries_holds h hlisted,
    fun artifact hin => ?_, sortKeys_toDict⟩
  · refine checkCovered_ok.mpr ⟨m.onnxFile, (sortedHashes_names m).mpr (ha.required _ List.mem_cons_self), ?_⟩
    rw [lookup_loaded, honnx]
    rfl
  · refine checkCovered_ok.mpr ⟨m.stateDictFile, (sortedHashes_names m).mpr (ha.required _ (by simp)), ?_⟩
    rw [lookup_loaded, hstate]
    rfl
  · obtain ⟨parts, content, he, hfind⟩ := h.artifacts _ ((mem_sortedHashes ha).mp hin)
    obtain ⟨hname, hvalue⟩ := Prod.mk.inj he
    refine checkDigest_ok.mpr ⟨content, ?_, Scalar.str.inj (PyValue.scalar.inj hvalue)⟩
    rw [hname, parse_joinPath (components_of_visible (h.visible hfind))]
    exact hfind

end completeness

/-- On every host, an accepted directory is what its metadata says, and the directory that a metadata
object and its artifacts make is accepted if the host raises nothing over it; `verify_model_bundle`
returns `to_dict()` with its keys in order. -/
theorem bundle_verification (sha : Sha256 β) (codec : JsonCodec β) (host : Host β) :
    (∀ tree value, verifyModelBundle sha codec host tree = .ok value →
      ∃ loaded listed, value = .dict loaded ∧ VerifiedBundle sha codec tree loaded listed) ∧
    ∀ arguments m tree, ModelBundleMetadata.postInit arguments = .ok m →
      (arguments.artifactSha256.map Prod.fst).Nodup → arguments.fp8Calibration.isJson = true →
      HoldsBundle sha codec m tree → HostReads sha codec host m tree →
      verifyModelBundle sha codec host tree = .ok (m.toDict sha codec).sortKeys :=
  ⟨fun _ _ h => verify_sound h,
    fun _ _ _ hinit hunique hjson h => verify_complete (accepted_of_postInit hinit hunique hjson) h⟩

def calmHost (β : Type) : Host β where
  probe := none
  loads _ := none
  dumps _ := none
  repr _ := none
  rglob root := (root.walk, none)
  rglob_listed _ _ hin := hin
  rglob_complete _ _ _ hin := hin

/-- Contents that are numbered, or JSON texts that are known by their values. -/
inductive SampleContent where
  | blob (number : Fin 16)
  | json (value : PyValue)

def sampleSha : Sha256 SampleContent where
  digest
    | .blob number => Vector.replicate 64 number
    | .json _ => Vector.replicate 64 0

def sampleCodec : JsonCodec SampleContent where
  compact := .json
  indented := .json
  loads
    | .json value => some value
    | .blob _ => none
  loads_indented _ _ := rfl

def sampleOnnx : SampleContent := .blob 10

def sampleState : SampleContent := .blob 11

/-- A digest in capitals, an artifact in a directory and a nested calibration. -/
def sampleArguments : ModelBundleMetadata where
  modelName := text "fraud"
  modelVersion := text "test"
  modelConfig := ⟨16, 32, 64, 4, 2, 128, 8, .finite 0⟩
  artifactSha256 := [(text "nested/model.onnx", .str (List.replicate 64 65)),
    (text "model.pt", .str (List.replicate 64 98))]
  fp8Calibration := .dict [(text "tensor", .dict [(text "scales", .list [.scalar (.int 1), .scalar .none])])]
  onnxFile := text "nested/model.onnx"

def sampleMetadata : ModelBundleMetadata where
  __ := sampleArguments
  artifactSha256 := [(text "nested/model.onnx", .str (List.replicate 64 97)),
    (text "model.pt", .str (List.replicate 64 98))]
  fp8Calibration := freezeJson sampleArguments.fp8Calibration

def sampleEntries : List (PyString × Node PyString SampleContent) :=
  [(text "model.pt", .file (some sampleState)),
    (text "nested", .dir true [(text "model.onnx", .file (some sampleOnnx))]),
    (metadataName, .file (some (sampleMetadata.written sampleSha sampleCodec)))]

lemma everyDirectory_sample {Q : List (PyString × Node PyString SampleContent) → Prop} (hroot : Q sampleEntries)
    (hnested : Q [(text "model.onnx", .file (some sampleOnnx))]) : (Node.dir true sampleEntries).EveryDirectory Q := by
  refine Node.everyDirectory_dir hroot fun entry hentry => ?_
  simp only [sampleEntries, List.mem_cons, List.not_mem_nil, or_false] at hentry
  rcases hentry with rfl | rfl | rfl
  · exact Node.everyDirectory_file Q _
  · refine Node.everyDirectory_dir hnested fun entry hentry => ?_
    obtain rfl := List.mem_singleton.mp hentry
    exact Node.everyDirectory_file Q _
  · exact Node.everyDirectory_file Q _

def sampleTree : BundleTree SampleContent where
  root := .dir true sampleEntries
  unique := everyDirectory_sample (by decide) (by decide)
  named := everyDirectory_sample (by decide) (by decide)

lemma sample_postInit : sampleArguments.postInit = .ok sampleMetadata := by rfl

lemma find_sample {path : List PyString} {node : Node PyString SampleContent} (hne : path ≠ [])
    (h : sampleTree.root.find path = some node) :
    path = [text "model.pt"] ∧ node = .file (some sampleState) ∨
    path = [text "nested"] ∧ node = .dir true [(text "model.onnx", .file (some sampleOnnx))] ∨
    path = [text "nested", text "model.onnx"] ∧ node = .file (some sampleOnnx) ∨
    path = [metadataName] ∧ node = .file (some (sampleMetadata.written sampleSha sampleCodec)) := by
  obtain ⟨name, rest, rfl⟩ := List.exists_cons_of_ne_nil hne
  obtain ⟨below, -, hentry, hfind⟩ := Node.exists_entry_of_find h
  simp only [sampleEntries, List.mem_cons, Prod.mk.injEq, List.not_mem_nil, or_false] at hentry
  rcases hentry with ⟨rfl, rfl⟩ | ⟨rfl, rfl⟩ | ⟨rfl, rfl⟩
  · obtain ⟨rfl, rfl⟩ := Node.eq_of_find_file hfind
    exact .inl ⟨rfl, rfl⟩
  · cases rest with
    | nil =>
      cases hfind
      exact .inr (.inl ⟨rfl, rfl⟩)
    | cons name rest =>
      obtain ⟨below, -, hentry, hfind⟩ := Node.exists_entry_of_find hfind
      obtain ⟨rfl, rfl⟩ := Prod.mk.injEq .. ▸ List.mem_singleton.mp hentry
      obtain ⟨rfl, rfl⟩ := Node.eq_of_find_file hfind
      exact .inr (.inr (.inl ⟨rfl, rfl⟩))
  · obtain ⟨rfl, rfl⟩ := Node.eq_of_find_file hfind
    exact .inr (.inr (.inr ⟨rfl, rfl⟩))

lemma sample_holds : HoldsBundle sampleSha sampleCodec sampleMetadata sampleTree where
  root := ⟨sampleEntries, rfl⟩
  metadata := by rfl
  artifacts := by
    intro entry hentry
    simp only [sampleMetadata, List.mem_cons, List.not_mem_nil, or_false] at hentry
    rcases hentry with rfl | rfl
    · exact ⟨[text "nested", text "model.onnx"], sampleOnnx, by rfl, by rfl⟩
    · exact ⟨[text "model.pt"], sampleState, by rfl, by rfl⟩
  only := by
    intro path node hne h
    rcases find_sample hne h with ⟨rfl, rfl⟩ | ⟨rfl, rfl⟩ | ⟨rfl, rfl⟩ | ⟨rfl, rfl⟩
    · exact .inl ⟨_, rfl, .inr (by decide)⟩
    · exact .inr ⟨_, [text "model.onnx"], some sampleOnnx, rfl, List.cons_ne_nil _ _, by decide, rfl⟩
    · exact .inl ⟨_, rfl, .inr (by decide)⟩
    · exact .inl ⟨_, rfl, .inl rfl⟩

/-- The directory of a bundle with an artifact in a directory of its own is accepted, and then
keeps what the verification says. -/
theorem bundle_verification_nested :
    sampleArguments.postInit = .ok sampleMetadata ∧ HoldsBundle sampleSha sampleCodec sampleMetadata sampleTree ∧
    ∃ loaded listed, (sampleMetadata.toDict sampleSha sampleCodec).sortKeys = .dict loaded ∧
      VerifiedBundle sampleSha sampleCodec sampleTree loaded listed :=
  have hok := (bundle_verification sampleSha sampleCodec (calmHost _)).2 sampleArguments sampleMetadata sampleTree
    sample_postInit (by decide) rfl sample_holds ⟨rfl, rfl, rfl, rfl⟩
  ⟨sample_postInit, sample_holds, (bundle_verification sampleSha sampleCodec (calmHost _)).1 sampleTree _ hok⟩

end FraudDetection.Proofs
