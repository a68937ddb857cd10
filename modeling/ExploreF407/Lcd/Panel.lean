import ExploreF407.Sys.Numerals

/-! # Drawing on the panel

The routines of `bsp_lcd.c` that draw frames, characters and strings, and those that
print the content of a table cell. All coordinates are 16 bits wide.
-/

namespace ExploreF407.Lcd

open Sys

/-- `BSP_LCDDirTypedef`. -/
inductive Dir where
  | crosswise
  | vertical
  deriving Repr, DecidableEq

/-- The `BSP_ErrorTypedef` values that printing can report besides `BSP_ERROR_NONE`. -/
inductive BspError where
  | font
  | range
  | format
  deriving Repr, DecidableEq

/-- `BSP_LCDRectTypedef`. -/
structure Rect where
  xposStart : Nat
  xposStop : Nat
  yposStart : Nat
  yposStop : Nat
  xposStart_lt : xposStart < 2 ^ 16
  xposStop_lt : xposStop < 2 ^ 16
  yposStart_lt : yposStart < 2 ^ 16
  yposStop_lt : yposStop < 2 ^ 16

/-- `BSP_LCDSpaceTypedef`. -/
structure Space where
  lineSpace : Nat
  wordSpace : Nat
  deriving Repr, DecidableEq

def white : UInt16 := 0xffff

def black : UInt16 := 0x0000

/-- The colour of every pixel. -/
abbrev Panel := Nat × Nat → UInt16

/-- The three font tables, by size: the bytes of the character with the index `asc2`. What
    lies behind the end of a table is part of it. -/
abbrev Font := Nat → UInt8 → Nat → UInt8

def drawPoint (p : Panel) (xpos ypos : Nat) (color : UInt16) : Panel :=
  Function.update p (xpos, ypos) color

/-- A write-RAM command at the cursor, and `n` data writes: the controller goes on to the
    right. -/
def writeRam (p : Panel) (xpos ypos n : Nat) (color : UInt16) : Panel :=
  fun point =>
    if point.2 = ypos ∧ xpos ≤ point.1 ∧ point.1 < xpos + n then color else p point

def drawColumn (p : Panel) (rect : Rect) (xpos : Nat) (color : UInt16) : Panel :=
  let temp1 := if rect.yposStop > rect.yposStart then rect.yposStop - rect.yposStart
    else rect.yposStart - rect.yposStop
  (List.range temp1).foldl (fun p temp =>
    if rect.yposStop > rect.yposStart then
      writeRam p xpos ((rect.yposStart + temp) % 2 ^ 16) 1 color
    else writeRam p xpos (rect.yposStart - temp) 1 color) p

def drawRect (p : Panel) (rect : Rect) (color : UInt16) : Panel :=
  let width := rect.xposStop - rect.xposStart
  let p := writeRam p rect.xposStart rect.yposStart width color
  let p := writeRam p rect.xposStart rect.yposStop width color
  let p := drawColumn p rect rect.xposStart color
  drawColumn p rect rect.xposStop color

/-! ## Characters -/

/-- A call of `LCD_DrawPoint`: the point and the colour. -/
abbrev Dot := (Nat × Nat) × UInt16

/-- The panel, where `LCD_ShowChar` will draw next, and a record of its calls of
    `LCD_DrawPoint`. -/
structure Pen where
  panel : Panel
  xpos : Nat
  ypos : Nat
  dots : List Dot

def Pen.draw (pen : Pen) (color : UInt16) : Pen :=
  { pen with
    panel := drawPoint pen.panel pen.xpos pen.ypos color
    dots := pen.dots ++ [((pen.xpos, pen.ypos), color)] }

/-- The inner loop: `n` bits are left of `temp0`, which has been shifted to the left. The
    loop is left at the end of a column (of a row where the panel is turned). -/
def showBits (dir : Dir) (size xpos0 ypos0 : Nat) (color : UInt16) :
    Nat → UInt8 → Pen → Pen
  | 0, _, pen => pen
  | n + 1, temp0, pen =>
      let pen := pen.draw (if temp0 &&& 0x80 ≠ 0 then color else white)
      match dir with
      | .crosswise =>
          if (pen.ypos + 1) % 2 ^ 16 = ypos0 + size then
            { pen with xpos := (pen.xpos + 1) % 2 ^ 16, ypos := ypos0 }
          else showBits dir size xpos0 ypos0 color n (temp0 <<< 1)
            { pen with ypos := (pen.ypos + 1) % 2 ^ 16 }
      | .vertical =>
          if (pen.xpos + 1) % 2 ^ 16 = xpos0 + size then
            { pen with xpos := xpos0, ypos := (pen.ypos + (2 ^ 16 - 1)) % 2 ^ 16 }
          else showBits dir size xpos0 ypos0 color n (temp0 <<< 1)
            { pen with xpos := (pen.xpos + 1) % 2 ^ 16 }

def columnBytes (size : Nat) : Nat := size / 8 + if size % 8 = 0 then 0 else 1

/-- `csize`. -/
def charSize (size : Nat) : Nat := columnBytes size * (size / 2)

/-- `LCD_ShowChar`, with its record. -/
def showCharPen (font : Font) (dir : Dir) (p : Panel) (xpos ypos : Nat) (asc2 : UInt8) (size : Nat)
    (color : UInt16) : Pen :=
  (List.range (charSize size)).foldl (fun pen temp2 =>
    showBits dir size xpos ypos color 8 (font size (asc2 - 32) temp2) pen)
    { panel := p, xpos := xpos, ypos := ypos, dots := [] }

def showChar (font : Font) (dir : Dir) (p : Panel) (xpos ypos : Nat) (asc2 : UInt8) (size : Nat)
    (color : UInt16) : Panel :=
  (showCharPen font dir p xpos ypos asc2 size color).panel

/-! ## Strings -/

/-- `BSP_LCD_FONT_WIDTH_12` and so on; the other sizes have no font. -/
def fontWidth (size : Nat) : Option Nat :=
  if size = 12 then some 6 else if size = 16 then some 8 else if size = 24 then some 12 else none

/-- What stays the same while a string is printed. The offsets are exchanged where the
    panel is turned. -/
structure Layout where
  dir : Dir
  range : Rect
  space : Space
  xposOffset : Nat
  yposOffset : Nat

/-- `xpos`, `ypos` and `line_num`. -/
structure Cursor where
  xpos : Nat
  ypos : Nat
  lineNum : Nat
  deriving Repr, DecidableEq

/-- The panel, `BSP_LCDCursor`, and a record of the calls of `LCD_ShowChar`: the cursor and the
    character. -/
structure Screen where
  panel : Panel
  cursor : Nat × Nat
  calls : List (Cursor × UInt8) := []

def Screen.showChar (font : Font) (dir : Dir) (size : Nat) (color : UInt16) (lcd : Screen)
    (c : Cursor) (ch : UInt8) : Screen :=
  { lcd with
    panel := Lcd.showChar font dir lcd.panel c.xpos c.ypos ch size color
    calls := lcd.calls ++ [(c, ch)] }

def Layout.ofSize (dir : Dir) (range : Rect) (space : Space) (size width : Nat) : Layout :=
  match dir with
  | .crosswise => ⟨dir, range, space, width, size⟩
  | .vertical => ⟨dir, range, space, size, width⟩

namespace Layout

def start (l : Layout) : Cursor :=
  match l.dir with
  | .crosswise => ⟨(l.range.xposStart + l.space.wordSpace) % 2 ^ 16, l.range.yposStart, 0⟩
  | .vertical =>
      ⟨l.range.xposStart, (l.range.yposStart + (2 ^ 16 - l.yposOffset / 2)) % 2 ^ 16, 0⟩

def newline (l : Layout) (c : Cursor) : Cursor :=
  let lineNum := (c.lineNum + 1) % 2 ^ 16
  match l.dir with
  | .crosswise =>
      { xpos := (l.range.xposStart + l.space.wordSpace) % 2 ^ 16
        ypos := (l.range.yposStart + lineNum * l.yposOffset + l.space.lineSpace) % 2 ^ 16
        lineNum := lineNum }
  | .vertical =>
      { xpos := (l.range.xposStart + lineNum * l.xposOffset + l.space.lineSpace) % 2 ^ 16
        ypos := (l.range.yposStart + (2 ^ 16 - l.space.wordSpace)) % 2 ^ 16
        lineNum := lineNum }

/-- Where the next character goes; `none` where it would leave the range. There is no
    check along the line after a line break. -/
def place (l : Layout) (c : Cursor) : Option Cursor :=
  match l.dir with
  | .crosswise =>
      let c := if c.xpos + l.xposOffset > l.range.xposStop then l.newline c else c
      if c.ypos + l.yposOffset > l.range.yposStop then none else some c
  | .vertical =>
      let c := if c.ypos < l.range.yposStop + l.yposOffset + l.space.wordSpace then l.newline c
        else c
      if c.xpos + l.xposOffset > l.range.xposStop then none else some c

def advance (l : Layout) (c : Cursor) : Cursor :=
  match l.dir with
  | .crosswise => { c with xpos := (c.xpos + l.xposOffset + l.space.wordSpace) % 2 ^ 16 }
  | .vertical =>
      { c with ypos := (c.ypos + (2 ^ 16 - (l.yposOffset + l.space.wordSpace))) % 2 ^ 16 }

def printChars (font : Font) (l : Layout) (size : Nat) (color : UInt16) :
    List UInt8 → Cursor → Screen → Screen × Except BspError Cursor
  | [], c, lcd => (lcd, .ok c)
  | ch :: chs, c, lcd => match l.place c with
      | none => (lcd, .error .range)
      | some c => printChars font l size color chs (l.advance c)
          (lcd.showChar font l.dir size color c ch)

/-- What is left in `BSP_LCDCursor`. -/
def record (l : Layout) (c : Cursor) : Nat × Nat :=
  match l.dir with
  | .crosswise => ((c.xpos + l.xposOffset + l.space.wordSpace) % 2 ^ 16, c.ypos)
  | .vertical =>
      (c.xpos, (c.ypos + (2 ^ 16 - l.yposOffset) + (2 ^ 16 - l.space.wordSpace)) % 2 ^ 16)

end Layout

/-- `BSP_LCDPrintString`. The cursor is only recorded when the whole string was printed. -/
def printString (font : Font) (dir : Dir) (lcd : Screen) (range : Rect) (space : Space)
    (string : List UInt8) (size : Nat) (color : UInt16) : Screen × Option BspError :=
  match fontWidth size with
  | none => (lcd, some .font)
  | some width =>
      let l := Layout.ofSize dir range space size width
      match l.printChars font size color string l.start lcd with
      | (lcd, .ok c) => ({ lcd with cursor := l.record c }, none)
      | (lcd, .error err) => (lcd, some err)

/-! ## Cells -/

/-- `Content`, read as `Format` says; a string up to its end. -/
inductive Content where
  | string (bytes : List UInt8)
  | uint8 (value : UInt8)
  | uint16 (value : UInt16)
  | uint32 (value : UInt32)
  | float (value : ℚ)
  /-- `Format` is none of the five. -/
  | unknown

/-- The string that is printed for a content, and `String` after the conversion. -/
def Content.text (fpu : Fpu) (string : Buffer) : Content → Option (List UInt8 × Buffer)
  | .string bytes => some (bytes.takeWhile (· ≠ 0), string)
  | .uint8 value => digits value.toNat
  | .uint16 value => digits value.toNat
  | .uint32 value => digits value.toNat
  | .float value =>
      let s := ftoa fpu value 2 string
      some (s.text 32, s)
  | .unknown => none
where
  digits (value : Nat) : Option (List UInt8 × Buffer) :=
    let s := uitoa value 10 0 string
    some (s.text 32, s)

/-- `Space` as `BSP_LCDPrintCell` sets it. -/
def cellSpace : Space := { lineSpace := 0, wordSpace := 16 / 6 }

/-- `BSP_LCDPrintCell`. What `BSP_LCDPrintString` returns is dropped. -/
def printCell (font : Font) (fpu : Fpu) (dir : Dir) (lcd : Screen) (string : Buffer)
    (cellArea : Rect) (content : Content) : Screen × Buffer × Option BspError :=
  match content.text fpu string with
  | none => (lcd, string, some .format)
  | some (text, string) =>
      ((printString font dir lcd cellArea cellSpace text 16 black).1, string, none)

end ExploreF407.Lcd
