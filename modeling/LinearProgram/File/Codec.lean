import LinearProgram.Backend.Error
import LinearProgram.Event
import LinearProgram.File.Store
import LinearProgram.Json.Native
import LinearProgram.Mps.Reader

/-! Programs in files. -/

namespace LinearProgram

/-- How programs over these numbers are written to files and read from them. -/
class Codec (α : Type) where
  encode : Format → Problem α → Except BackendError String
  decode : Format → String → Except BackendError (Problem α)

instance instCodecFloat [Json.NumberReader] : Codec Float where
  encode
    | .json, p => .ok p.toJson.pretty
    | .freeMps, p => (Mps.write p).mapError fun o => .rejected (.unwritable o)
  decode
    | .json, text =>
      match (Json.read? text).bind Problem.ofJson? with
      | some p => .ok p
      | none => .error .json
    | .freeMps, text => (Mps.read text).mapError fun (line, fault) => .format line fault

variable {α : Type} [Codec α]

def Problem.save (p : Problem α) (path : String) (files : Files) :
    Except BackendError (Files × List Event) := do
  let text ← Codec.encode (Format.ofPath path) p
  match files.writeText? path text with
  | none => throw .io
  | some files =>
    return (files, [.savedFile path p.columns.length p.constraints.length])

def Problem.load (path : String) (files : Files) :
    Except BackendError (Problem α × List Event) := do
  match files.readText? path with
  | none => throw .io
  | some text =>
    let p ← Codec.decode (Format.ofPath path) text
    return (p, [.loadedFile path p.columns.length p.constraints.length])

end LinearProgram
