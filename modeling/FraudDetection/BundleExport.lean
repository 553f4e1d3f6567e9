import FraudDetection.Bundle
import FraudDetection.Library.Threads

/-!
# Publishing a model bundle

`export_model_bundle` and `_atomic_publish_directory` of `training/export/export_model.py`, for any
number of calls with one destination that run at the same time. What they share is the directory
that holds the destination and their staging directories. `torch` and `onnx` are what they leave in
the staging directory: a call can find any tree there after a statement that hands the path to them.

Every statement can raise instead of having its effect. `mkdtemp` takes a name that it never
returned before, and the rename is one step that fails if the destination is there.
-/

namespace FraudDetection.Bundle
open FraudDetection.Library

variable {β : Type}

def onnxName : PyString := text "model.onnx"

def stateName : PyString := text "model.pt"

/-- The arguments that end up in the metadata; the calibration is the result of its `to_dict`. -/
structure ExportArguments where
  modelName : PyString := text "fixed-shape-fraud-transformer"
  modelVersion : PyString := text "0.1.0"
  modelConfig : TransactionTransformerConfig
  calibration : Option PyValue := none

def ExportArguments.metadata (arguments : ExportArguments) (onnx state : PyString) : ModelBundleMetadata where
  modelName := arguments.modelName
  modelVersion := arguments.modelVersion
  modelConfig := arguments.modelConfig
  artifactSha256 := [(onnxName, .str onnx), (stateName, .str state)]
  fp8Calibration := arguments.calibration.getD (.scalar .none)

section directory

def BundleTree.empty : BundleTree β where
  root := .dir true []
  unique := Node.everyDirectory_dir List.nodup_nil fun _ h => absurd h List.not_mem_nil
  named := Node.everyDirectory_dir (fun _ h => absurd h List.not_mem_nil) fun _ h => absurd h List.not_mem_nil

def BundleTree.createFile (tree : BundleTree β) (name : PyString) (hname : IsComponent name) (content : β) :
    Option (BundleTree β) :=
  match h : tree.root.createFile name content with
  | none => none
  | some root => some {
      root
      unique := tree.unique.createFile (fun entries hnodup hnot => by
        rw [List.map_append]
        exact hnodup.append (List.nodup_singleton name) (List.disjoint_singleton.mpr hnot)) h
      named := tree.named.createFile (fun entries hnames _ => by
        refine List.forall_mem_append.mpr ⟨hnames, List.forall_mem_singleton.mpr hname⟩) h }

def ModelBundleMetadata.write (sha : Sha256 β) (codec : JsonCodec β) (m : ModelBundleMetadata) (tree : BundleTree β) :
    Option (BundleTree β) :=
  tree.createFile metadataName (by decide) (m.written sha codec)

def BundleTree.readFile (tree : BundleTree β) (name : PyString) : Option β :=
  match tree.root.find [name] with
  | some (.file content) => content
  | _ => none

structure Directory (β : Type) where
  entries : PyString → Option (BundleTree β)
  returned : List PyString

/-- `Path.exists`, which follows a link; `resolves` is what a link then gives. -/
def Directory.pathExists (dir : Directory β) (name : PyString) (resolves : Bool) : Bool :=
  match dir.entries name with
  | none => false
  | some tree => match tree.root with
    | .link => resolves
    | _ => true

def Directory.set (dir : Directory β) (name : PyString) (entry : Option (BundleTree β)) : Directory β :=
  { dir with entries := Function.update dir.entries name entry }

@[simp] lemma Directory.set_entries_self (dir : Directory β) (name : PyString) (entry : Option (BundleTree β)) :
    (dir.set name entry).entries name = entry := by
  simp only [Directory.set, Function.update_self]

lemma Directory.set_entries_of_ne (dir : Directory β) {name other : PyString} (entry : Option (BundleTree β))
    (h : other ≠ name) : (dir.set name entry).entries other = dir.entries other := by
  simp only [Directory.set, Function.update_of_ne h]

def stagingName (destination characters : PyString) : PyString :=
  text "." ++ destination ++ text ".staging-" ++ characters

end directory

section calls

/-- The statements of `export_model_bundle` and of the functions that it calls; the digests and the
metadata are its variables. -/
inductive ExportPC where
  | checkDestination
  | requireCpuFloat32
  | findPackages
  | makeParent
  | makeStaging
  | enterTry
  | evaluate
  | saveState
  | exportOnnx
  | validateOnnx
  | hashOnnx
  | hashState (onnx : PyString)
  | makeMetadata (onnx state : PyString)
  | writeMetadata (m : ModelBundleMetadata)
  | verify
  | recheckDestination
  | rename
  | renameFailed
  | renamed
  | leaveTry
  | handler
  | cleanup
  | restoreMode (ok : Bool)
  | returned
  | raised

structure ExportCall where
  pc : ExportPC
  staging : Option PyString
  published : Bool

def ExportCall.start : ExportCall := ⟨.checkDestination, none, false⟩

def ExportCall.goto (call : ExportCall) (pc : ExportPC) : ExportCall := { call with pc }

def ExportCall.staged (call : ExportCall) (dir : Directory β) : Option (BundleTree β) :=
  call.staging.bind dir.entries

/-- Where an exception leads: out of the call before the `try`, else to the handler, and from there
through the `finally`. -/
def ExportPC.onException : ExportPC → Option ExportPC
  | .checkDestination | .requireCpuFloat32 | .findPackages | .makeParent | .makeStaging | .enterTry => some .raised
  | .handler | .cleanup => some (.restoreMode false)
  | .restoreMode _ => some .raised
  | .returned | .raised => none
  | _ => some .handler

/-- What happens at a statement. `change` is what others leave in the staging directory while the
statement runs, `verify` what the interpreter and the operating system refuse to the verifier, `fail`
an error of the rename that is not about the destination. -/
inductive ExportChoice (β : Type) where
  | proceed
  | observe (resolves : Bool)
  | create (characters : PyString)
  | change (tree : BundleTree β)
  | verify (host : Host β)
  | fail
  | raise

inductive ExportEffect (β : Type) where
  | quiet
  | staged (name : PyString)
  | changed
  | removed
  | published (tree : BundleTree β)

def ExportCall.changeStaging (call : ExportCall) (dir : Directory β) (tree : BundleTree β) (next : ExportPC) :
    Option (ExportCall × Directory β × ExportEffect β) :=
  match call.staging with
  | none => none
  | some name => (dir.entries name).map fun _ => (call.goto next, dir.set name (some tree), .changed)

def ExportCall.renameNoreplace (destination : PyString) (call : ExportCall) (dir : Directory β) :
    Option (ExportCall × Directory β × ExportEffect β) :=
  match call.staging with
  | none => none
  | some name => match dir.entries destination, dir.entries name with
    | none, some tree => some (call.goto .renamed, (dir.set name none).set destination (some tree), .published tree)
    | _, _ => some (call.goto .renameFailed, dir, .quiet)

/-- The last step of `rmtree`; there may be no directory of the name, which is passed over. -/
def ExportCall.removeStaging (call : ExportCall) (dir : Directory β) :
    Option (ExportCall × Directory β × ExportEffect β) :=
  match call.staging with
  | none => none
  | some name => match dir.entries name with
    | some _ => some (call.goto (.restoreMode false), dir.set name none, .removed)
    | none => some (call.goto (.restoreMode false), dir, .quiet)

variable (sha : Sha256 β) (codec : JsonCodec β) (destination : PyString)

def exportStep (arguments : ExportArguments) (call : ExportCall) (dir : Directory β) (choice : ExportChoice β) :
    Option (ExportCall × Directory β × ExportEffect β) :=
  match choice, call.pc with
  | .raise, pc => pc.onException.map fun next => (call.goto next, dir, .quiet)
  | .observe resolves, .checkDestination =>
    some (call.goto (if dir.pathExists destination resolves then .raised else .requireCpuFloat32), dir, .quiet)
  | .proceed, .requireCpuFloat32 => some (call.goto .findPackages, dir, .quiet)
  | .proceed, .findPackages => some (call.goto .makeParent, dir, .quiet)
  | .proceed, .makeParent => some (call.goto .makeStaging, dir, .quiet)
  | .create characters, .makeStaging =>
    let name := stagingName destination characters
    if dir.returned.contains name || (dir.entries name).isSome then none
    else some ({ call with pc := .enterTry, staging := some name },
      { dir.set name (some .empty) with returned := name :: dir.returned }, .staged name)
  | .proceed, .enterTry => some (call.goto .evaluate, dir, .quiet)
  | .proceed, .evaluate => some (call.goto .saveState, dir, .quiet)
  | .change tree, .saveState => call.changeStaging dir tree .saveState
  | .proceed, .saveState => some (call.goto .exportOnnx, dir, .quiet)
  | .change tree, .exportOnnx => call.changeStaging dir tree .exportOnnx
  | .proceed, .exportOnnx => some (call.goto .validateOnnx, dir, .quiet)
  | .proceed, .validateOnnx => some (call.goto .hashOnnx, dir, .quiet)
  | .proceed, .hashOnnx => match (call.staged dir).bind (·.readFile onnxName) with
    | some content => some (call.goto (.hashState (sha.hexdigest content)), dir, .quiet)
    | none => some (call.goto .handler, dir, .quiet)
  | .proceed, .hashState onnx => match (call.staged dir).bind (·.readFile stateName) with
    | some content => some (call.goto (.makeMetadata onnx (sha.hexdigest content)), dir, .quiet)
    | none => some (call.goto .handler, dir, .quiet)
  | .proceed, .makeMetadata onnx state => match (arguments.metadata onnx state).postInit with
    | .ok m => some (call.goto (.writeMetadata m), dir, .quiet)
    | .error _ => some (call.goto .handler, dir, .quiet)
  | .change tree, .writeMetadata _ => call.changeStaging dir tree .handler
  | .proceed, .writeMetadata m => match (call.staged dir).bind (m.write sha codec) with
    | some tree => call.changeStaging dir tree .verify
    | none => some (call.goto .handler, dir, .quiet)
  | .verify host, .verify => match (call.staged dir).map (verifyModelBundle sha codec host) with
    | some (.ok _) => some (call.goto .recheckDestination, dir, .quiet)
    | _ => some (call.goto .handler, dir, .quiet)
  | .observe resolves, .recheckDestination =>
    some (call.goto (if dir.pathExists destination resolves then .handler else .rename), dir, .quiet)
  | .proceed, .rename => call.renameNoreplace destination dir
  | .fail, .rename => some (call.goto .renameFailed, dir, .quiet)
  | .observe _, .renameFailed => some (call.goto .handler, dir, .quiet)
  | .proceed, .renamed => some ({ call with pc := .leaveTry, published := true }, dir, .quiet)
  | .proceed, .leaveTry => some (call.goto (.restoreMode true), dir, .quiet)
  | .proceed, .handler => some (call.goto (if call.published then .restoreMode false else .cleanup), dir, .quiet)
  | .change tree, .cleanup => call.changeStaging dir tree .cleanup
  | .proceed, .cleanup => call.removeStaging dir
  | .proceed, .restoreMode ok => some (call.goto (if ok then .returned else .raised), dir, .quiet)
  | _, _ => none

def exportProgram {ι : Type} (arguments : ι → ExportArguments) :
    Program (fun _ : ι => ExportCall) (fun _ => ExportChoice β) (Directory β) (ExportEffect β) :=
  fun i call dir choice => exportStep sha codec destination (arguments i) call dir choice

def exportStart {ι : Type} (dir : Directory β) : Threads (fun _ : ι => ExportCall) (Directory β) :=
  ⟨dir, fun _ => .start⟩

end calls

end FraudDetection.Bundle
