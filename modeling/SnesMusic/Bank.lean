import SnesMusic.Number.LittleEndian

/-!
# Music banks

The five banks a song may live in, the regions of the image that hold their upload blocks, and the
fixed data of each: offsets, capacities, the address of the song table and the songs of the game.
-/
namespace SnesMusic

/-- A region of the image that holds a chain of upload blocks. -/
inductive UploadBank where
  | common
  | overworld
  | dungeon
  | credits
  | expanded
  | auxiliary
  deriving DecidableEq, Repr

namespace UploadBank

/-- Where the first block of the chain stands in an image without copier header. -/
def offset : UploadBank → Nat
  | .common => 0xC8000
  | .overworld => 0xD1EF5
  | .dungeon => 0xD8000
  | .credits => 0xD5380
  | .expanded => 0x1A9EF5
  | .auxiliary => 0x1ACCA7

def id : UploadBank → Nat
  | .common => 0
  | .overworld => 1
  | .dungeon => 2
  | .credits => 3
  | .expanded => 4
  | .auxiliary => 5

end UploadBank

/-- A bank of songs. The last two exist only in images with the expanded music patch. -/
inductive Bank where
  | overworld
  | dungeon
  | credits
  | overworldExpanded
  | auxiliary
  deriving DecidableEq, Repr

/-- Offsets of the three bytes that hold the address of a relocatable bank. -/
structure PointerBytes where
  low : Nat
  mid : Nat
  bank : Nat
  deriving DecidableEq, Repr

namespace Bank

/-- All banks in their fixed order. -/
def all : List Bank := [overworld, dungeon, credits, overworldExpanded, auxiliary]

theorem mem_all (b : Bank) : b ∈ all := by cases b <;> decide

/-- The name shown in reports. -/
def name : Bank → String
  | .overworld => "Overworld"
  | .dungeon => "Dungeon"
  | .credits => "Credits"
  | .overworldExpanded => "Expanded"
  | .auxiliary => "Auxiliary"

/-- The name used in saved states. -/
def tag : Bank → String
  | .overworldExpanded => "OverworldExpanded"
  | b => b.name

def ofTag? (tag : String) : Option Bank := all.find? (·.tag == tag)

theorem ofTag?_tag (b : Bank) : ofTag? b.tag = some b := by cases b <;> decide

/-- The name given on the command line. -/
def option : Bank → String
  | .overworld => "overworld"
  | .dungeon => "dungeon"
  | .credits => "credits"
  | .overworldExpanded => "overworld-expanded"
  | .auxiliary => "auxiliary"

def ofOption? (option : String) : Option Bank := all.find? (·.option == option)

def uploadBank : Bank → UploadBank
  | .overworld => .overworld
  | .dungeon => .dungeon
  | .credits => .credits
  | .overworldExpanded => .expanded
  | .auxiliary => .auxiliary

/-- Where the bank's song block stands in an image without copier header. -/
def offset (b : Bank) : Nat := b.uploadBank.offset

/-- Bytes of song data a bank takes unless configured otherwise. -/
def defaultLimit : Bank → Nat
  | .overworld => 12032
  | .dungeon => 11200
  | .credits => 4200
  | .overworldExpanded => 0x2DAE
  | .auxiliary => 0x0688

/-- The address the bank's song table is uploaded to. -/
def tableAddress : Bank → UInt16
  | .auxiliary => 0x2B00
  | _ => 0xD000

/-- First and last id of the game's own songs in the bank. Ids count from one. -/
def songRange : Bank → Option (Nat × Nat)
  | .overworld => some (1, 11)
  | .dungeon => some (12, 31)
  | .credits => some (32, 34)
  | .overworldExpanded | .auxiliary => none

/-- Number of table slots the game's own songs take. -/
def vanillaSlots (b : Bank) : Nat :=
  match b.songRange with
  | some (first, last) => last + 1 - first
  | none => 0

/-- The banks whose address the game keeps in code, where saving has to update it. -/
def pointerBytes : Bank → Option PointerBytes
  | .overworld => some { low := 0x0914, mid := 0x0918, bank := 0x091C }
  | .credits => some { low := 0x0932, mid := 0x0936, bank := 0x093A }
  | _ => none

/-- The banks that come with the expanded music patch. -/
def isExpansion : Bank → Bool
  | .overworldExpanded | .auxiliary => true
  | _ => false

/-- A value for each bank, changed at one of them. -/
def update {α : Type} (f : Bank → α) (b : Bank) (value : α) : Bank → α :=
  fun other => if other = b then value else f other

@[simp] theorem update_same {α : Type} (f : Bank → α) (b : Bank) (value : α) :
    update f b value b = value := by simp [update]

theorem update_of_ne {α : Type} (f : Bank → α) {b other : Bank} (value : α) (h : other ≠ b) :
    update f b value other = f other := by simp [update, h]

end Bank

/-- Names and banks of the game's own songs, in the order of their ids. -/
def vanillaSongs : List (String × Bank) := [
  ("Title", .overworld), ("Light World", .overworld), ("Beginning", .overworld),
  ("Rabbit", .overworld), ("Forest", .overworld), ("Intro", .overworld), ("Town", .overworld),
  ("Warp", .overworld), ("Dark World", .overworld), ("Master Sword", .overworld),
  ("File Select", .overworld), ("Soldier", .dungeon), ("Mountain", .dungeon), ("Shop", .dungeon),
  ("Fanfare", .dungeon), ("Castle", .dungeon), ("Palace (Pendant)", .dungeon), ("Cave", .dungeon),
  ("Clear", .dungeon), ("Church", .dungeon), ("Boss", .dungeon), ("Dungeon (Crystal)", .dungeon),
  ("Psychic", .dungeon), ("Secret Way", .dungeon), ("Rescue", .dungeon), ("Crystal", .dungeon),
  ("Fountain", .dungeon), ("Pyramid", .dungeon), ("Kill Agahnim", .dungeon),
  ("Ganon Room", .dungeon), ("Last Boss", .dungeon), ("Credits 1", .credits),
  ("Credits 2", .credits), ("Credits 3", .credits)]

def vanillaCount : Nat := 34

theorem length_vanillaSongs : vanillaSongs.length = vanillaCount := rfl

/-- Whether the song at this index, counted from zero, is one of the game's own. -/
def isVanilla (index : Nat) : Bool := index < vanillaCount

/-- Name and bank of the song with this id; ids count from one. -/
def vanillaSong? (id : Nat) : Option (String × Bank) :=
  match id with
  | 0 => none
  | index + 1 => vanillaSongs[index]?

end SnesMusic
