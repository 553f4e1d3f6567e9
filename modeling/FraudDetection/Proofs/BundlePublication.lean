import FraudDetection.BundleExport
import FraudDetection.Proofs.BundleVerification

/-!
# Bundles are published once and whole

Every run of calls of `export_model_bundle` with one destination. A staging directory belongs to the
call that `mkdtemp` returned it to, so that what a call has written and verified is still there when
it renames; and no step takes the destination away.
-/

namespace FraudDetection.Proofs
open FraudDetection.Library FraudDetection.Bundle

variable {β : Type} {sha : Sha256 β} {codec : JsonCodec β} {destination : PyString}

lemma stagingName_ne_destination (destination characters : PyString) :
    stagingName destination characters ≠ destination := by
  intro h
  have hlength := congrArg List.length h
  simp only [stagingName, List.length_append] at hlength
  have hdot : (text ".").length = 1 := by rfl
  omega

section content

def HasDigest (sha : Sha256 β) (tree : BundleTree β) (name digest : PyString) : Prop :=
  ∃ content, tree.readFile name = some content ∧ digest = sha.hexdigest content

/-- The metadata object is the one that a call makes for the two artifacts of the directory. -/
def Describes (sha : Sha256 β) (arguments : ExportArguments) (m : ModelBundleMetadata) (tree : BundleTree β) : Prop :=
  ∃ onnx state, HasDigest sha tree onnxName onnx ∧ HasDigest sha tree stateName state ∧
    (arguments.metadata onnx state).postInit = .ok m

/-- The directory holds the artifacts and the metadata that a call has made for them. -/
def Staged (sha : Sha256 β) (codec : JsonCodec β) (arguments : ExportArguments) (tree : BundleTree β) : Prop :=
  ∃ m, Describes sha arguments m tree ∧ tree.readFile metadataName = some (m.written sha codec)

structure CompleteBundle (sha : Sha256 β) (codec : JsonCodec β) (arguments : ExportArguments) (tree : BundleTree β) :
    Prop where
  staged : Staged sha codec arguments tree
  verified : ∃ host value, verifyModelBundle sha codec host tree = .ok value

/-- What a call relies on at a statement about its staging directory. -/
def StagingProgress (sha : Sha256 β) (codec : JsonCodec β) (arguments : ExportArguments) (staged : Option (BundleTree β)) :
    ExportPC → Prop
  | .hashState onnx => ∃ tree ∈ staged, HasDigest sha tree onnxName onnx
  | .makeMetadata onnx state => ∃ tree ∈ staged, HasDigest sha tree onnxName onnx ∧ HasDigest sha tree stateName state
  | .writeMetadata m => ∃ tree ∈ staged, Describes sha arguments m tree
  | .verify => ∃ tree ∈ staged, Staged sha codec arguments tree
  | .recheckDestination | .rename => ∃ tree ∈ staged, CompleteBundle sha codec arguments tree
  | _ => True

lemma createFile_root {tree tree' : BundleTree β} {name : PyString} {hname : IsComponent name} {content : β}
    (h : tree.createFile name hname content = some tree') : tree.root.createFile name content = some tree'.root := by
  unfold BundleTree.createFile at h
  split at h
  case h_1 => cases h
  case h_2 root hroot =>
    cases h
    exact hroot

lemma staged_of_write {arguments : ExportArguments} {m : ModelBundleMetadata} {tree tree' : BundleTree β}
    (hm : Describes sha arguments m tree) (h : m.write sha codec tree = some tree') :
    Staged sha codec arguments tree' := by
  have hroot := createFile_root h
  have hkeep : ∀ name, name ≠ metadataName → tree'.readFile name = tree.readFile name := by
    intro name hne
    unfold BundleTree.readFile
    rw [Node.find_createFile_of_ne hroot hne]
  obtain ⟨onnx, state, ⟨content, honnx, rfl⟩, ⟨content', hstate, rfl⟩, hinit⟩ := hm
  refine ⟨m, ⟨_, _, ⟨content, ?_, rfl⟩, ⟨content', ?_, rfl⟩, hinit⟩, ?_⟩
  · rw [hkeep _ (by decide), honnx]
  · rw [hkeep _ (by decide), hstate]
  · unfold BundleTree.readFile
    rw [Node.find_createFile hroot, Node.find_nil]

end content

section steps

def afterRename : ExportPC → Bool
  | .renamed | .leaveTry | .restoreMode true | .returned => true
  | _ => false

variable {arguments : ExportArguments} {call call' : ExportCall} {dir dir' : Directory β} {effect : ExportEffect β}

/-- Everything that a statement can do to the directory, and what it does for the call. -/
inductive ExportMove (sha : Sha256 β) (codec : JsonCodec β) (destination : PyString) (arguments : ExportArguments)
    (call call' : ExportCall) (dir : Directory β) : Directory β → ExportEffect β → Prop where
  | quiet (hstaging : call'.staging = call.staging)
      (hprogress : StagingProgress sha codec arguments (call.staged dir) call.pc →
        StagingProgress sha codec arguments (call.staged dir) call'.pc)
      (hafter : afterRename call'.pc = true → afterRename call.pc = true) :
      ExportMove sha codec destination arguments call call' dir dir .quiet
  | staged (characters : PyString) (hfresh : stagingName destination characters ∉ dir.returned)
      (hstaging : call'.staging = some (stagingName destination characters)) (hpc : call'.pc = .enterTry) :
      ExportMove sha codec destination arguments call call' dir
        { dir.set (stagingName destination characters) (some .empty) with
          returned := stagingName destination characters :: dir.returned }
        (.staged (stagingName destination characters))
  | changed (name : PyString) (tree : BundleTree β) (hname : call.staging = some name)
      (hstaging : call'.staging = call.staging)
      (hprogress : StagingProgress sha codec arguments (call.staged dir) call.pc →
        StagingProgress sha codec arguments (some tree) call'.pc)
      (hafter : afterRename call'.pc = false) :
      ExportMove sha codec destination arguments call call' dir (dir.set name (some tree)) .changed
  | removed (name : PyString) (hname : call.staging = some name) (hstaging : call'.staging = call.staging)
      (hpc : call'.pc = .restoreMode false) :
      ExportMove sha codec destination arguments call call' dir (dir.set name none) .removed
  | published (name : PyString) (tree : BundleTree β) (hname : call.staging = some name)
      (hstaging : call'.staging = call.staging) (hfree : dir.entries destination = none)
      (hstaged : dir.entries name = some tree) (hpc : call.pc = .rename) (hpc' : call'.pc = .renamed) :
      ExportMove sha codec destination arguments call call' dir ((dir.set name none).set destination (some tree))
        (.published tree)

lemma move_goto {next : ExportPC} (hnext : ∀ staged, StagingProgress sha codec arguments staged next)
    (hafter : afterRename next = true → afterRename call.pc = true) :
    ExportMove sha codec destination arguments call (call.goto next) dir dir .quiet :=
  .quiet rfl (fun _ => hnext _) hafter

lemma move_changeStaging {tree : BundleTree β} {next : ExportPC}
    (h : call.changeStaging dir tree next = some (call', dir', effect))
    (hprogress : StagingProgress sha codec arguments (call.staged dir) call.pc →
      StagingProgress sha codec arguments (some tree) next) (hafter : afterRename next = false) :
    ExportMove sha codec destination arguments call call' dir dir' effect := by
  unfold ExportCall.changeStaging at h
  cases hname : call.staging with
  | none =>
    rw [hname] at h
    cases h
  | some name =>
    rw [hname] at h
    obtain ⟨old, -, he⟩ := Option.map_eq_some_iff.mp h
    cases he
    exact .changed name tree hname rfl hprogress hafter

lemma move_renameNoreplace (hpc : call.pc = .rename)
    (h : call.renameNoreplace destination dir = some (call', dir', effect)) :
    ExportMove sha codec destination arguments call call' dir dir' effect := by
  unfold ExportCall.renameNoreplace at h
  cases hname : call.staging with
  | none =>
    rw [hname] at h
    cases h
  | some name =>
    simp only [hname] at h
    split at h
    case h_1 tree hfree hstaged =>
      cases h
      exact .published name tree hname rfl hfree hstaged hpc rfl
    case h_2 =>
      cases h
      exact move_goto (fun _ => trivial) nofun

lemma move_removeStaging (h : call.removeStaging dir = some (call', dir', effect)) :
    ExportMove sha codec destination arguments call call' dir dir' effect := by
  unfold ExportCall.removeStaging at h
  cases hname : call.staging with
  | none =>
    rw [hname] at h
    cases h
  | some name =>
    simp only [hname] at h
    split at h
    case h_1 =>
      cases h
      exact .removed name hname rfl rfl
    case h_2 =>
      cases h
      exact move_goto (fun _ => trivial) nofun

lemma move_onException {next : ExportPC} (h : call.pc.onException = some next) :
    ExportMove sha codec destination arguments call (call.goto next) dir dir .quiet := by
  generalize hpc : call.pc = pc at h
  have hnext : next = .raised ∨ next = .handler ∨ next = .restoreMode false := by
    cases pc <;> cases h <;> simp
  rcases hnext with rfl | rfl | rfl <;> exact move_goto (fun _ => trivial) nofun

lemma move_observe {resolves : Bool}
    (h : exportStep sha codec destination arguments call dir (.observe resolves) = some (call', dir', effect)) :
    ExportMove sha codec destination arguments call call' dir dir' effect := by
  unfold exportStep at h
  cases hpc : call.pc with
  | checkDestination =>
    simp only [hpc] at h
    cases h
    split <;> exact move_goto (fun _ => trivial) nofun
  | recheckDestination =>
    simp only [hpc] at h
    cases h
    split
    · exact move_goto (fun _ => trivial) nofun
    · refine .quiet rfl (fun hprogress => ?_) nofun
      rw [hpc] at hprogress
      exact hprogress
  | renameFailed =>
    simp only [hpc] at h
    cases h
    exact move_goto (fun _ => trivial) nofun
  | _ =>
    simp only [hpc] at h
    cases h

lemma move_create {characters : PyString}
    (h : exportStep sha codec destination arguments call dir (.create characters) = some (call', dir', effect)) :
    ExportMove sha codec destination arguments call call' dir dir' effect := by
  unfold exportStep at h
  cases hpc : call.pc with
  | makeStaging =>
    simp only [hpc] at h
    split_ifs at h with hused
    cases h
    have hfresh : stagingName destination characters ∉ dir.returned := by
      intro hin
      exact hused (by rw [List.contains_iff_mem.mpr hin, Bool.true_or])
    exact .staged characters hfresh rfl rfl
  | _ =>
    simp only [hpc] at h
    cases h

lemma move_change {tree : BundleTree β}
    (h : exportStep sha codec destination arguments call dir (.change tree) = some (call', dir', effect)) :
    ExportMove sha codec destination arguments call call' dir dir' effect := by
  unfold exportStep at h
  cases hpc : call.pc with
  | saveState | exportOnnx | writeMetadata | cleanup =>
    simp only [hpc] at h
    exact move_changeStaging h (fun _ => trivial) rfl
  | _ =>
    simp only [hpc] at h
    cases h

lemma move_fail (h : exportStep sha codec destination arguments call dir .fail = some (call', dir', effect)) :
    ExportMove sha codec destination arguments call call' dir dir' effect := by
  unfold exportStep at h
  cases hpc : call.pc with
  | rename =>
    simp only [hpc] at h
    cases h
    exact move_goto (fun _ => trivial) nofun
  | _ =>
    simp only [hpc] at h
    cases h

/-- The statements as they are. What a call relies on after one of them is what the one before has
found in the staging directory. -/
lemma move_proceed (h : exportStep sha codec destination arguments call dir .proceed = some (call', dir', effect)) :
    ExportMove sha codec destination arguments call call' dir dir' effect := by
  unfold exportStep at h
  cases hpc : call.pc with
  | requireCpuFloat32 | findPackages | makeParent | enterTry | evaluate | saveState | exportOnnx | validateOnnx =>
    simp only [hpc] at h
    cases h
    exact move_goto (fun _ => trivial) nofun
  | hashOnnx =>
    simp only [hpc] at h
    split at h <;> cases h
    · rename_i content hread
      obtain ⟨tree, htree, hcontent⟩ := Option.bind_eq_some_iff.mp hread
      exact .quiet rfl (fun _ => ⟨tree, htree, content, hcontent, rfl⟩) nofun
    · exact move_goto (fun _ => trivial) nofun
  | hashState onnx =>
    simp only [hpc] at h
    split at h <;> cases h
    · rename_i content hread
      obtain ⟨tree, htree, hcontent⟩ := Option.bind_eq_some_iff.mp hread
      refine .quiet rfl (fun hprogress => ?_) nofun
      rw [hpc] at hprogress
      obtain ⟨tree', htree', honnx⟩ := hprogress
      obtain rfl := Option.mem_unique htree' htree
      exact ⟨tree', htree, honnx, content, hcontent, rfl⟩
    · exact move_goto (fun _ => trivial) nofun
  | makeMetadata onnx state =>
    simp only [hpc] at h
    split at h <;> cases h
    · rename_i m hinit
      refine .quiet rfl (fun hprogress => ?_) nofun
      rw [hpc] at hprogress
      obtain ⟨tree, htree, honnx, hstate⟩ := hprogress
      exact ⟨tree, htree, onnx, state, honnx, hstate, hinit⟩
    · exact move_goto (fun _ => trivial) nofun
  | writeMetadata m =>
    simp only [hpc] at h
    split at h
    · rename_i tree' hwrite
      obtain ⟨tree, htree, hwrite⟩ := Option.bind_eq_some_iff.mp hwrite
      refine move_changeStaging h (fun hprogress => ?_) rfl
      rw [hpc] at hprogress
      obtain ⟨tree₁, htree₁, hm⟩ := hprogress
      obtain rfl := Option.mem_unique htree₁ htree
      exact ⟨tree', rfl, staged_of_write hm hwrite⟩
    · cases h
      exact move_goto (fun _ => trivial) nofun
  | rename =>
    simp only [hpc] at h
    exact move_renameNoreplace hpc h
  | renamed =>
    simp only [hpc] at h
    cases h
    exact .quiet rfl (fun _ => trivial) fun _ => by rw [hpc]; rfl
  | leaveTry =>
    simp only [hpc] at h
    cases h
    exact move_goto (fun _ => trivial) fun _ => by rw [hpc]; rfl
  | handler =>
    simp only [hpc] at h
    cases h
    split <;> exact move_goto (fun _ => trivial) nofun
  | cleanup =>
    simp only [hpc] at h
    exact move_removeStaging h
  | restoreMode ok =>
    simp only [hpc] at h
    cases h
    cases ok with
    | true => exact move_goto (fun _ => trivial) fun _ => by rw [hpc]; rfl
    | false => exact move_goto (fun _ => trivial) nofun
  | checkDestination | makeStaging | verify | recheckDestination | renameFailed | returned | raised =>
    simp only [hpc] at h
    cases h

lemma move_verify {host : Host β}
    (h : exportStep sha codec destination arguments call dir (.verify host) = some (call', dir', effect)) :
    ExportMove sha codec destination arguments call call' dir dir' effect := by
  unfold exportStep at h
  cases hpc : call.pc with
  | verify =>
    simp only [hpc] at h
    split at h <;> cases h
    · rename_i value hverify
      obtain ⟨tree, htree, hvalue⟩ := Option.map_eq_some_iff.mp hverify
      refine .quiet rfl (fun hprogress => ?_) nofun
      rw [hpc] at hprogress
      obtain ⟨tree', htree', hstaged⟩ := hprogress
      obtain rfl := Option.mem_unique htree' htree
      exact ⟨tree', htree, hstaged, host, value, hvalue⟩
    · exact move_goto (fun _ => trivial) nofun
  | _ =>
    simp only [hpc] at h
    cases h

theorem exportStep_move {choice : ExportChoice β}
    (h : exportStep sha codec destination arguments call dir choice = some (call', dir', effect)) :
    ExportMove sha codec destination arguments call call' dir dir' effect := by
  cases choice with
  | proceed => exact move_proceed h
  | observe resolves => exact move_observe h
  | create characters => exact move_create h
  | change tree => exact move_change h
  | verify host => exact move_verify h
  | fail => exact move_fail h
  | raise =>
    obtain ⟨next, hnext, he⟩ := Option.map_eq_some_iff.mp h
    cases he
    exact move_onException hnext

end steps

section runs

variable {ι : Type} {arguments : ι → ExportArguments}

/-- What the directory keeps of the steps so far: each staging directory has one owner, and the
destination is what the one call that renamed had staged. -/
structure Publications (sha : Sha256 β) (codec : JsonCodec β) (destination : PyString) (arguments : ι → ExportArguments)
    (history : List (ι × ExportEffect β)) (dir : Directory β) : Prop where
  returned : ∀ i name, (i, .staged name) ∈ history → name ∈ dir.returned ∧ name ≠ destination
  owner : ∀ i j name, (i, .staged name) ∈ history → (j, .staged name) ∈ history → i = j
  published : ∀ i tree, (i, .published tree) ∈ history →
    dir.entries destination = some tree ∧ CompleteBundle sha codec (arguments i) tree
  publisher : ∀ i j tree tree', (i, .published tree) ∈ history → (j, .published tree') ∈ history → i = j

structure OwnCall (sha : Sha256 β) (codec : JsonCodec β) (arguments : ι → ExportArguments) (i : ι) (call : ExportCall)
    (history : List (ι × ExportEffect β)) (dir : Directory β) : Prop where
  staging : ∀ name, call.staging = some name → (i, .staged name) ∈ history
  progress : StagingProgress sha codec (arguments i) (call.staged dir) call.pc
  succeeded : afterRename call.pc = true → ∃ tree, (i, .published tree) ∈ history

/-- A call keeps its history, and no other call touches its staging directory. -/
def StagingUntouched (i : ι) (history : List (ι × ExportEffect β)) (dir : Directory β)
    (history' : List (ι × ExportEffect β)) (dir' : Directory β) : Prop :=
  history ⊆ history' ∧ ∀ name, (i, .staged name) ∈ history → dir'.entries name = dir.entries name

lemma ExportMove.destination_free {arguments : ExportArguments} {call call' : ExportCall} {dir dir' : Directory β}
    {effect : ExportEffect β} (h : ExportMove sha codec destination arguments call call' dir dir' effect)
    {tree : BundleTree β} (he : effect = .published tree) : dir.entries destination = none := by
  cases h with
  | published name tree hname hstaging hfree => exact hfree
  | _ => cases he

lemma Publications.of_unchanged {history : List (ι × ExportEffect β)} {dir dir' : Directory β}
    (h : Publications sha codec destination arguments history dir)
    (hdestination : dir'.entries destination = dir.entries destination) (hreturned : dir'.returned = dir.returned)
    (i : ι) {effect : ExportEffect β}
    (hstaged : ∀ name, effect ≠ .staged name) (hpublished : ∀ tree, effect ≠ .published tree) :
    Publications sha codec destination arguments (history ++ [(i, effect)]) dir' := by
  have hold : ∀ j name, (j, .staged name) ∈ history ++ [(i, effect)] → (j, .staged name) ∈ history := by
    intro j name hin
    simpa [(hstaged name).symm] using hin
  have hold' : ∀ j tree, (j, .published tree) ∈ history ++ [(i, effect)] → (j, .published tree) ∈ history := by
    intro j tree hin
    simpa [(hpublished tree).symm] using hin
  refine ⟨fun j name hin => ?_, fun j k name hj hk => h.owner j k name (hold j name hj) (hold k name hk),
    fun j tree hin => ?_, fun j k tree tree' hj hk => h.publisher j k tree tree' (hold' j tree hj) (hold' k tree' hk)⟩
  · rw [hreturned]
    exact h.returned j name (hold j name hin)
  · rw [hdestination]
    exact h.published j tree (hold' j tree hin)

lemma Publications.of_staged {history : List (ι × ExportEffect β)} {dir dir' : Directory β} {name : PyString}
    (h : Publications sha codec destination arguments history dir) (hfresh : name ∉ dir.returned)
    (hname : name ≠ destination) (hreturned : dir'.returned = name :: dir.returned)
    (hdestination : dir'.entries destination = dir.entries destination) (i : ι) :
    Publications sha codec destination arguments (history ++ [(i, .staged name)]) dir' := by
  have hnew : ∀ j other, (j, .staged other) ∈ history ++ [(i, ExportEffect.staged name)] →
      (j, .staged other) ∈ history ∨ j = i ∧ other = name := by
    intro j other hin
    simpa using hin
  have hold : ∀ j, (j, .staged name) ∉ history := fun j hin => hfresh (h.returned j name hin).1
  have hold' : ∀ j tree, (j, .published tree) ∈ history ++ [(i, ExportEffect.staged name)] →
      (j, .published tree) ∈ history := by
    intro j tree hin
    simpa using hin
  refine ⟨fun j other hin => ?_, fun j k other hj hk => ?_, fun j tree hin => ?_,
    fun j k tree tree' hj hk => h.publisher j k tree tree' (hold' j tree hj) (hold' k tree' hk)⟩
  · rw [hreturned]
    rcases hnew j other hin with hin | ⟨-, rfl⟩
    · exact ⟨List.mem_cons_of_mem _ (h.returned j other hin).1, (h.returned j other hin).2⟩
    · exact ⟨List.mem_cons_self, hname⟩
  · rcases hnew j other hj with hj' | ⟨rfl, rfl⟩
    · rcases hnew k other hk with hk' | ⟨rfl, rfl⟩
      · exact h.owner j k other hj' hk'
      · exact absurd hj' (hold j)
    · rcases hnew k other hk with hk' | ⟨rfl, -⟩
      · exact absurd hk' (hold k)
      · rfl
  · rw [hdestination]
    exact h.published j tree (hold' j tree hin)

lemma Publications.of_published {history : List (ι × ExportEffect β)} {dir dir' : Directory β} {tree : BundleTree β} {i : ι}
    (h : Publications sha codec destination arguments history dir) (hfree : dir.entries destination = none)
    (hcomplete : CompleteBundle sha codec (arguments i) tree) (hreturned : dir'.returned = dir.returned)
    (hdestination : dir'.entries destination = some tree) :
    Publications sha codec destination arguments (history ++ [(i, .published tree)]) dir' := by
  have hnone : ∀ j other, (j, .published other) ∉ history := by
    intro j other hin
    have hsome := (h.published j other hin).1
    rw [hfree] at hsome
    cases hsome
  have hold : ∀ j name, (j, .staged name) ∈ history ++ [(i, ExportEffect.published tree)] →
      (j, .staged name) ∈ history := by
    intro j name hin
    simpa using hin
  have hnew : ∀ j other, (j, .published other) ∈ history ++ [(i, ExportEffect.published tree)] →
      j = i ∧ other = tree := by
    intro j other hin
    simpa [hnone j other] using hin
  refine ⟨fun j name hin => ?_, fun j k name hj hk => h.owner j k name (hold j name hj) (hold k name hk),
    fun j other hin => ?_, fun j k other other' hj hk => ?_⟩
  · rw [hreturned]
    exact h.returned j name (hold j name hin)
  · obtain ⟨rfl, rfl⟩ := hnew j other hin
    exact ⟨hdestination, hcomplete⟩
  · rw [(hnew j other hj).1, (hnew k other' hk).1]

/-- The names that a step may touch: the call's own staging directory, and the destination when it
publishes there. -/
lemma ExportMove.frame {arguments : ExportArguments} {call call' : ExportCall} {dir dir' : Directory β}
    {effect : ExportEffect β} (h : ExportMove sha codec destination arguments call call' dir dir' effect)
    {name : PyString} (hown : call'.staging ≠ some name)
    (hdestination : name = destination → ∀ tree, effect ≠ .published tree) :
    dir'.entries name = dir.entries name := by
  cases h with
  | quiet => rfl
  | staged characters hfresh hstaging hpc =>
    refine Directory.set_entries_of_ne _ _ fun he => hown ?_
    rw [hstaging, he]
  | changed own tree hname hstaging hprogress hafter =>
    refine Directory.set_entries_of_ne _ _ fun he => hown ?_
    rw [hstaging, hname, he]
  | removed own hname hstaging hpc =>
    refine Directory.set_entries_of_ne _ _ fun he => hown ?_
    rw [hstaging, hname, he]
  | published own tree hname hstaging hfree hstaged hpc hpc' =>
    rw [Directory.set_entries_of_ne _ _ fun he => hdestination he tree rfl, Directory.set_entries_of_ne]
    intro he
    apply hown
    rw [hstaging, hname, he]

lemma OwnCall.step {i : ι} {call call' : ExportCall} {history : List (ι × ExportEffect β)} {dir dir' : Directory β}
    {effect : ExportEffect β} (h : OwnCall sha codec arguments i call history dir)
    (hmove : ExportMove sha codec destination (arguments i) call call' dir dir' effect) :
    OwnCall sha codec arguments i call' (history ++ [(i, effect)]) dir' := by
  have hkeep : call'.staging = call.staging →
      ∀ name, call'.staging = some name → (i, .staged name) ∈ history ++ [(i, effect)] := by
    intro hstaging name hname
    exact List.mem_append_left _ (h.staging name (hstaging ▸ hname))
  cases hmove with
  | quiet hstaging hprogress hafter =>
    refine ⟨hkeep hstaging, ?_, fun hrenamed => ?_⟩
    · unfold ExportCall.staged
      rw [hstaging]
      exact hprogress h.progress
    · obtain ⟨tree, htree⟩ := h.succeeded (hafter hrenamed)
      exact ⟨tree, List.mem_append_left _ htree⟩
  | staged characters hfresh hstaging hpc =>
    refine ⟨fun name hname => ?_, by rw [hpc]; trivial, fun hrenamed => ?_⟩
    · obtain rfl := Option.some.inj (hstaging.symm.trans hname)
      exact List.mem_append_right _ List.mem_cons_self
    · rw [hpc] at hrenamed
      cases hrenamed
  | changed name tree hname hstaging hprogress hafter =>
    refine ⟨hkeep hstaging, ?_, fun hrenamed => ?_⟩
    · have hstaged : call'.staged (dir.set name (some tree)) = some tree := by
        rw [ExportCall.staged, hstaging, hname, Option.bind_some, Directory.set_entries_self]
      rw [hstaged]
      exact hprogress h.progress
    · rw [hafter] at hrenamed
      cases hrenamed
  | removed name hname hstaging hpc =>
    refine ⟨hkeep hstaging, by rw [hpc]; trivial, fun hrenamed => ?_⟩
    rw [hpc] at hrenamed
    cases hrenamed
  | published name tree hname hstaging hfree hstaged hpc hpc' =>
    refine ⟨hkeep hstaging, by rw [hpc']; trivial, fun _ => ?_⟩
    exact ⟨tree, List.mem_append_right _ List.mem_cons_self⟩

/-- The destination is never a staging directory, so a step that does not publish leaves it. -/
lemma Publications.destination_kept {i : ι} {call call' : ExportCall} {history : List (ι × ExportEffect β)}
    {dir dir' : Directory β} {effect : ExportEffect β}
    (hguard : Publications sha codec destination arguments history dir)
    (hown : OwnCall sha codec arguments i call history dir)
    (hmove : ExportMove sha codec destination (arguments i) call call' dir dir' effect)
    (hquiet : ∀ tree, effect ≠ .published tree) : dir'.entries destination = dir.entries destination := by
  refine hmove.frame (fun hstaging => ?_) fun _ => hquiet
  have hkeep : call'.staging ≠ call.staging := by
    intro he
    exact (hguard.returned i destination (hown.staging destination (he ▸ hstaging))).2 rfl
  cases hmove with
  | staged characters hfresh hname hpc =>
    exact stagingName_ne_destination destination characters (Option.some.inj (hname.symm.trans hstaging))
  | _ => exact hkeep ‹_›

lemma Publications.step {i : ι} {call call' : ExportCall} {history : List (ι × ExportEffect β)} {dir dir' : Directory β}
    {effect : ExportEffect β} (hguard : Publications sha codec destination arguments history dir)
    (hown : OwnCall sha codec arguments i call history dir)
    (hmove : ExportMove sha codec destination (arguments i) call call' dir dir' effect) :
    Publications sha codec destination arguments (history ++ [(i, effect)]) dir' := by
  have hkept := hguard.destination_kept hown hmove
  cases hmove with
  | quiet => exact hguard.of_unchanged rfl rfl i nofun nofun
  | staged characters hfresh hstaging hpc =>
    exact hguard.of_staged hfresh (stagingName_ne_destination _ _) rfl (hkept nofun) i
  | changed name tree => exact hguard.of_unchanged (hkept nofun) rfl i nofun nofun
  | removed name => exact hguard.of_unchanged (hkept nofun) rfl i nofun nofun
  | published name tree hname hstaging hfree hstaged hpc hpc' =>
    -- what the call verified is still what it renames
    have hprogress := hown.progress
    rw [hpc, ExportCall.staged, hname, Option.bind_some, hstaged] at hprogress
    obtain ⟨_, he, hcomplete⟩ := hprogress
    cases he
    exact hguard.of_published hfree hcomplete rfl (Directory.set_entries_self _ _ _)

theorem exports_relyGuarantee : RelyGuarantee (exportProgram sha codec destination arguments)
    (fun history event => history ++ [event]) (Publications sha codec destination arguments)
    (OwnCall sha codec arguments) StagingUntouched where
  step := by
    intro i call history dir choice call' dir' effect hguard hown h
    have hmove := exportStep_move h
    have hguard' := hguard.step hown hmove
    have hown' := hown.step hmove
    refine ⟨hguard', hown', fun j hne => ⟨List.subset_append_left _ _, fun name hname => ?_⟩⟩
    -- a name that the call touches is its own, and `mkdtemp` gave it to one call only
    refine hmove.frame (fun hstaging => hne ?_) fun he => absurd he (hguard.returned j name hname).2
    exact hguard'.owner j i name (List.mem_append_left _ hname) (hown'.staging name hstaging)
  stable := by
    rintro i call history dir history' dir' - - ⟨hsub, hkeep⟩ hown
    refine ⟨fun name hname => hsub (hown.staging name hname), ?_, fun hafter => ?_⟩
    · have hstaged : call.staged dir' = call.staged dir := by
        unfold ExportCall.staged
        cases hname : call.staging with
        | none => rfl
        | some name => exact hkeep name (hown.staging name hname)
      rw [hstaged]
      exact hown.progress
    · obtain ⟨tree, htree⟩ := hown.succeeded hafter
      exact ⟨tree, hsub htree⟩

variable [DecidableEq ι]

theorem exports_invariant {dir : Directory β} {actions : List ((_ : ι) × ExportChoice β)}
    {s : Threads (fun _ : ι => ExportCall) (Directory β)} {trace : List (ι × ExportEffect β)}
    (hrun : runThreads (exportProgram sha codec destination arguments) (exportStart dir) actions = some (s, trace)) :
    Publications sha codec destination arguments trace s.shared ∧
      ∀ i, OwnCall sha codec arguments i (s.locals i) trace s.shared := by
  refine runThreads_induction (P := fun s trace => Publications sha codec destination arguments trace s.shared ∧
    ∀ i, OwnCall sha codec arguments i (s.locals i) trace s.shared) ?_ [] ⟨?_, fun i => ?_⟩ actions hrun
  · rintro s trace a s' event ⟨hguard, hown⟩ hstep
    exact stepThread_invariant exports_relyGuarantee hguard hown hstep
  · exact ⟨nofun, nofun, nofun, nofun⟩
  · exact ⟨nofun, trivial, nofun⟩

/-- At most one call returns. Once a call has renamed, the destination is what that call had staged
and verified, for good. A step of a call that has not renamed leaves the destination, and no step
touches what another call has staged or what is published. -/
theorem bundle_published_once (sha : Sha256 β) (codec : JsonCodec β) (destination : PyString)
    (arguments : ι → ExportArguments) (dir : Directory β) {actions : List ((_ : ι) × ExportChoice β)}
    {s : Threads (fun _ : ι => ExportCall) (Directory β)} {trace : List (ι × ExportEffect β)}
    (hrun : runThreads (exportProgram sha codec destination arguments) (exportStart dir) actions = some (s, trace)) :
    (∀ i j, (s.locals i).pc = .returned → (s.locals j).pc = .returned → i = j) ∧
    (∀ i, (s.locals i).pc = .returned → ∃ tree, (i, .published tree) ∈ trace) ∧
    (∀ i tree, (i, .published tree) ∈ trace →
      s.shared.entries destination = some tree ∧ CompleteBundle sha codec (arguments i) tree) ∧
    ∀ past a later s₁ s₂ before event, actions = past ++ a :: later →
      runThreads (exportProgram sha codec destination arguments) (exportStart dir) past = some (s₁, before) →
      stepThread (exportProgram sha codec destination arguments) s₁ a = some (s₂, event) →
      ((∀ tree, (a.1, .published tree) ∉ trace) →
        s₂.shared.entries destination = s₁.shared.entries destination) ∧
      (∀ j ≠ a.1, ∀ name, (s₁.locals j).staging = some name →
        s₂.shared.entries name = s₁.shared.entries name) ∧
      ∀ i tree, (i, .published tree) ∈ before →
        s₂.shared.entries destination = s₁.shared.entries destination := by
  obtain ⟨hguard, hown⟩ := exports_invariant hrun
  have hreturned : ∀ i, (s.locals i).pc = .returned → ∃ tree, (i, .published tree) ∈ trace := by
    intro i hpc
    exact (hown i).succeeded (by rw [hpc]; rfl)
  refine ⟨fun i j hi hj => ?_, hreturned, hguard.published, ?_⟩
  · obtain ⟨tree, htree⟩ := hreturned i hi
    obtain ⟨tree', htree'⟩ := hreturned j hj
    exact hguard.publisher i j tree tree' htree htree'
  · intro past a later s₁ s₂ before event hactions hpast hstep
    subst hactions
    have hevent := mem_trace_of_step hrun hpast hstep
    obtain ⟨hguard₁, hown₁⟩ := exports_invariant hpast
    obtain ⟨next, shared, effect, hprogram, rfl, rfl⟩ := stepThread_eq hstep
    have hmove := exportStep_move hprogram
    have hkept := hguard₁.destination_kept (hown₁ a.1) hmove
    refine ⟨fun hnone => hkept fun tree he => hnone tree (he ▸ hevent), fun j hne name hname => ?_, fun i tree hin => ?_⟩
    · obtain ⟨-, -, hrely⟩ := exports_relyGuarantee.step a.1 _ _ _ _ _ _ _ hguard₁ (hown₁ a.1) hprogram
      exact (hrely j hne).2 name ((hown₁ j).staging name hname)
    · refine hkept fun tree' he => ?_
      have hsome := (hguard₁.published i tree hin).1
      rw [hmove.destination_free he] at hsome
      cases hsome

end runs

def sampleArtifacts : BundleTree SampleContent where
  root := .dir true [(stateName, .file (some sampleState)), (onnxName, .file (some sampleOnnx))]
  unique := Node.everyDirectory_dir (by decide) (by simp [Node.everyDirectory_file])
  named := Node.everyDirectory_dir (by decide) (by simp [Node.everyDirectory_file])

def stagingChoices (characters : PyString) : List (ExportChoice SampleContent) :=
  [.observe false, .proceed, .proceed, .proceed, .create characters, .proceed, .proceed, .change sampleArtifacts, .proceed,
    .proceed, .proceed, .proceed, .proceed, .proceed, .proceed, .verify (calmHost _), .observe false]

def racingArguments (_ : Bool) : ExportArguments where
  modelConfig := ⟨16, 32, 64, 4, 2, 128, 8, .finite 0⟩

/-- Both calls find the destination free; the second one to rename fails and removes its staging
directory. -/
def racingActions : List ((_ : Bool) × ExportChoice SampleContent) :=
  (stagingChoices (text "a")).map (Sigma.mk true) ++ (stagingChoices (text "b")).map (Sigma.mk false) ++
    [⟨true, .proceed⟩, ⟨false, .proceed⟩, ⟨true, .proceed⟩, ⟨false, .observe false⟩, ⟨true, .proceed⟩, ⟨false, .proceed⟩,
      ⟨false, .proceed⟩, ⟨true, .proceed⟩, ⟨false, .proceed⟩]

theorem bundle_published_once_race : ∃ s trace,
    runThreads (exportProgram sampleSha sampleCodec (text "bundle") racingArguments) (exportStart ⟨fun _ => none, []⟩)
      racingActions = some (s, trace) ∧ (s.locals true).pc = .returned ∧ (s.locals false).pc = .raised ∧
    ∃ tree, s.shared.entries (text "bundle") = some tree ∧
      CompleteBundle sampleSha sampleCodec (racingArguments true) tree := by
  have hends : (runThreads (exportProgram sampleSha sampleCodec (text "bundle") racingArguments)
      (exportStart ⟨fun _ => none, []⟩) racingActions).map
        (fun final => ((final.1.locals true).pc, (final.1.locals false).pc)) = some (.returned, .raised) := by rfl
  obtain ⟨⟨s, trace⟩, hrun, he⟩ := Option.map_eq_some_iff.mp hends
  obtain ⟨hwinner, hloser⟩ := Prod.mk.inj he
  obtain ⟨-, hreturned, hpublished, -⟩ :=
    bundle_published_once sampleSha sampleCodec (text "bundle") racingArguments ⟨fun _ => none, []⟩ hrun
  obtain ⟨tree, htree⟩ := hreturned true hwinner
  exact ⟨s, trace, hrun, hwinner, hloser, tree, hpublished true tree htree⟩

/-- An interrupt between the rename and the flag. -/
def interruptedActions : List ((_ : Bool) × ExportChoice SampleContent) :=
  (stagingChoices (text "a")).map (Sigma.mk true) ++
    [⟨true, .proceed⟩, ⟨true, .raise⟩, ⟨true, .proceed⟩, ⟨true, .proceed⟩, ⟨true, .proceed⟩]

-- the cleanup then finds no staging directory, and the bundle stays
example : (runThreads (exportProgram sampleSha sampleCodec (text "bundle") racingArguments)
    (exportStart ⟨fun _ => none, []⟩) interruptedActions).map
      (fun final => ((final.1.locals true).pc, (final.1.shared.entries (text "bundle")).isSome)) =
    some (.raised, true) := by
  rfl

end FraudDetection.Proofs
