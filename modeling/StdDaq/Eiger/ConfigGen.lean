import StdDaq.DetectorConfig

/-!
# The configuration generator of the Eiger

`std-daq_config_gen.py` turns the configuration of an Eiger detector into that of the services. It
works out how many rows and columns of submodules the detector has, how large the image with its
gaps is, and where every submodule goes. The image is rotated: what is `Y` for the detector is the
width of the image, and the sizes change their names at every call.

The modules are placed by a loop that walks from the lower left corner upwards, two submodules side
by side at a time, and starts over to the right when its count of rows has come down to zero. It
counts in flags that are zero or one. A local variable that is read before it is written raises an
exception; so do a division by zero, the maximum of nothing, and a key that is not in a dictionary.

What is read from the file is given here: the two numbers of `detsize`, the names of the hosts, and
numbers that may be missing. Neither the counter `column` nor the parameter `total_columns` of the
loop is ever read.

## Main definitions

* `getModuleXyPosition` — where the submodules go
* `generateOutputFile`, `main` — the generated configuration
-/

namespace StdDaq

namespace Eiger

namespace ConfigGen

/-- What `parse_file` finds. -/
structure DetectorFile where
  /-- The size of the detector, `Y` and `X`. -/
  detsize : Option (ℕ × ℕ)
  hostnames : Option (List String)
  dr : Option ℕ
  udpDstport : Option ℕ
  deactivate : List ℕ
  deriving DecidableEq, Repr

/-! ### Rows and columns -/

/-- `get_submodule_row_col`. -/
def getSubmoduleRowCol (modIndex index totalSizeX _totalSizeY : ℕ) : Except String (ℕ × ℕ) := do
  let submoduleSizeX := 256
  let moduleSizeX := 256
  throwIf (totalSizeX / submoduleSizeX = 0) "integer modulo by zero"
  let submoduleCol := modIndex % (totalSizeX / submoduleSizeX)
  let moduleRow := modIndex * moduleSizeX / totalSizeX
  let submoduleRow := moduleRow * 2 + index % 2
  return (submoduleRow, submoduleCol)

/-- `calculate_submodule_index`. -/
def calculateSubmoduleIndex (detsize : ℕ × ℕ) (hostnames : List String) :
    Except String (List (ℕ × ℕ)) :=
  let submodulesPerModule := 2
  let submodules := (List.range hostnames.length).flatMap fun i =>
    (List.range' (i * submodulesPerModule) submodulesPerModule).map fun index => (i, index)
  submodules.mapM fun s => getSubmoduleRowCol s.1 s.2 detsize.2 detsize.1

/-- `get_row_column`: the numbers of columns and rows. -/
def getRowColumn (indexes : List (ℕ × ℕ)) : Except String (ℕ × ℕ) :=
  match (indexes.map Prod.fst).max?, (indexes.map Prod.snd).max? with
  | some row, some column => .ok (column + 1, row + 1)
  | _, _ => .error "max() arg is an empty sequence"

/-! ### The size of the image -/

/-- `get_columns_total_size`. -/
def getColumnsTotalSize (nColumns initialSize : ℕ) : ℕ :=
  let smallGap := 2
  let bigGap := 36
  (List.range nColumns).foldl (fun totalSize column =>
    if column % 2 = 1 ∧ column < nColumns - 1 then totalSize + bigGap
    else if column % 2 = 0 ∧ column < nColumns - 1 then totalSize + smallGap
    else totalSize) initialSize

/-- `get_rows_total_size`. -/
def getRowsTotalSize (nRows initialSize : ℕ) : ℕ :=
  let smallGap := 2
  let bigGap := 8
  (List.range nRows).foldl (fun totalSize row =>
    if row % 2 = 1 ∧ row < nRows - 1 then totalSize + bigGap
    else if row % 2 = 0 then totalSize + 3 * smallGap
    else totalSize) initialSize

/-- `calculate_total_image_size`: the total sizes in `Y` and in `X`. -/
def calculateTotalImageSize (detsize : ℕ × ℕ) (columns rows : ℕ) : ℕ × ℕ :=
  (getRowsTotalSize rows detsize.1, getColumnsTotalSize columns detsize.2)

/-! ### The positions of the modules -/

def xSmallGap : ℤ := 2

def xBigGap : ℤ := 8

def ySmallGap : ℤ := 2

def yBigGap : ℤ := 36

/-- `module_size_x` of the loop. -/
def placedSizeX : ℤ := 512

/-- `module_size_y` of the loop. -/
def placedSizeY : ℤ := 256

/-- The variables of the loop. -/
structure Cursor where
  increaseColumn : ℕ
  /-- `dict_results`: the corners of each module, as the services read them. -/
  results : List (ℕ × Point × Point)
  x1 : ℤ
  x2 : ℤ
  y1 : ℤ
  y2 : ℤ
  /-- `right_current_x2` and `right_current_y1`, once they are assigned. -/
  right : Option (ℤ × ℤ)
  row : ℤ
  rawAdd : ℕ
  yBigCounter : ℕ
  deriving DecidableEq, Repr

namespace Cursor

/-- The variables before the loop. -/
def start (totalSizeY totalRows : ℤ) : Cursor where
  increaseColumn := 0
  results := []
  x1 := 0
  x2 := placedSizeX + xSmallGap - 1
  y1 := totalSizeY - 1
  y2 := totalSizeY - 1 - placedSizeY + 1
  right := none
  row := totalRows
  rawAdd := 1
  yBigCounter := 0

/-- Add an entry to `dict_results`: `[x1, y2, x2, y1]`. -/
def place (s : Cursor) (iMod : ℕ) (x1 y2 x2 y1 : ℤ) : Cursor :=
  { s with results := s.results ++ [(iMod, ⟨x1, y2⟩, ⟨x2, y1⟩)] }

/-- The variables `right_current_x2` and `right_current_y1`. -/
def readRight (s : Cursor) : Except String (ℤ × ℤ) :=
  match s.right with
  | some right => .ok right
  | none => .error "cannot access local variable"

/-- The branch of the even modules. -/
def evenModule (s : Cursor) (iMod : ℕ) : Except String Cursor := do
  if s.row ≠ 0 ∧ s.yBigCounter = 1 then
    let right ← s.readRight
    let y1 := right.2 - yBigGap - 1
    let y2 := y1 - placedSizeY + 1
    return { s.place iMod s.x1 y2 s.x2 y1 with y1 := y1, y2 := y2, yBigCounter := 0 }
  else
    let y2 := s.y2 - ySmallGap - 1
    let y1 := y2 - placedSizeY + 1
    return { s.place iMod s.x1 y2 s.x2 y1 with
      y1 := y1, y2 := y2, yBigCounter := s.yBigCounter + 1, row := s.row - 1 }

/-- The branch of the others, on the right of the one before. -/
def rightModule (s : Cursor) (iMod : ℕ) : Cursor :=
  let rightX1 := s.x2 + xSmallGap + 1
  let rightX2 := rightX1 + placedSizeX + xSmallGap - 1
  { s.place iMod rightX1 s.y2 rightX2 s.y1 with right := some (rightX2, s.y1) }

/-- What follows when the rows are counted down. -/
def lastRow (totalSizeY totalRows : ℤ) (s : Cursor) : Except String Cursor := do
  if s.increaseColumn = 1 then
    let right ← s.readRight
    let y1 := totalSizeY - 1
    let x1 := right.1 + xBigGap + 1
    return { s with
      row := totalRows, y1 := y1, y2 := y1 - placedSizeY + 1, x1 := x1,
      x2 := x1 + placedSizeX + xSmallGap - 1, yBigCounter := 0, increaseColumn := 0, rawAdd := 1 }
  else return { s with increaseColumn := 1 }

/-- One turn of the loop. -/
def turn (totalSizeY totalRows : ℤ) (s : Cursor) (iMod : ℕ) : Except String Cursor := do
  if s.rawAdd ≠ 1 then
    let s ← if iMod % 2 = 0 then s.evenModule iMod else .ok (s.rightModule iMod)
    if s.row = 0 then s.lastRow totalSizeY totalRows else return s
  else return { s.place iMod s.x1 s.y2 s.x2 s.y1 with rawAdd := 0 }

end Cursor

/-- `get_module_xy_position`. -/
def getModuleXyPosition (nModules : ℕ) (_totalSizeX totalSizeY totalRows _totalColumns : ℤ) :
    Except String (List (ℕ × Point × Point)) := do
  let s ← (List.range nModules).foldlM (Cursor.turn totalSizeY totalRows)
    (Cursor.start totalSizeY totalRows)
  return s.results

/-! ### The output -/

/-- An entry of `submodule_info`. -/
structure SubmoduleInfo where
  hostname : String
  submodule : ℕ
  port : ℕ
  row : ℕ
  column : ℕ
  activate : ℕ
  deriving DecidableEq, Repr

/-- The entries of the generated file. -/
structure OutputData where
  detectorName : String
  detectorType : String := "eiger"
  nModules : ℕ
  bitDepth : Option ℕ
  imagePixelHeight : ℤ
  imagePixelWidth : ℤ
  startUdpPort : Option ℕ
  submoduleInfo : List SubmoduleInfo
  modulePositions : List (ℕ × Point × Point)
  deactivate : List ℕ
  deriving DecidableEq, Repr

/-- `list_module_positions.pop(module)`. -/
def popModule (positions : List (ℕ × Point × Point)) (iMod : ℕ) :
    Except String (List (ℕ × Point × Point)) :=
  if positions.any (·.1 = iMod) then .ok (positions.filter (·.1 ≠ iMod))
  else .error "KeyError"

/-- `generate_output_file`, without writing the file. -/
def generateOutputFile (config : DetectorFile) (hostnames : List String)
    (indexes : List (ℕ × ℕ)) (imagePixelHeight imagePixelWidth totalRows totalColumns : ℕ) :
    Except String OutputData := do
  let nMs := hostnames.length / 4
  let submodulesPerModule := 2
  let removeModules := config.deactivate.flatMap fun m => [m * 2, m * 2 + 1]
  let positions ← getModuleXyPosition indexes.length imagePixelHeight imagePixelWidth totalRows
    totalColumns
  let positions ← removeModules.foldlM popModule positions
  let submoduleInfo ← indexes.zipIdx.mapM fun (index, i) => do
    let hostname ← match hostnames[i / submodulesPerModule]? with
      | some hostname => Except.ok hostname
      | none => .error "list index out of range"
    let port ← match config.udpDstport with
      | some port => Except.ok port
      | none => .error "int() argument must be a number"
    return {
      hostname := hostname
      submodule := i
      port := port + i
      row := index.1
      column := index.2
      activate := if i ∈ removeModules then 0 else 1 : SubmoduleInfo }
  return {
    detectorName := s!"EG{nMs}M"
    nModules := hostnames.length * 2
    bitDepth := config.dr
    imagePixelHeight := imagePixelWidth
    imagePixelWidth := imagePixelHeight
    startUdpPort := config.udpDstport
    submoduleInfo := submoduleInfo
    modulePositions := positions
    deactivate := removeModules }

/-- `main`, from what was read to what is written. -/
def main (config : DetectorFile) : Except String OutputData :=
  match config.detsize, config.hostnames with
  | some detsize, some hostnames => do
    let indexes ← calculateSubmoduleIndex detsize hostnames
    let (columns, rows) ← getRowColumn indexes
    let (imagePixelHeight, imagePixelWidth) := calculateTotalImageSize detsize columns rows
    generateOutputFile config hostnames indexes imagePixelHeight imagePixelWidth rows columns
  | _, _ => .error "Error: 'detsize' or 'hostnames' cannot be None. Terminating the program."

end ConfigGen

end Eiger

end StdDaq
