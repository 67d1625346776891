import LxmfChat.App.Addresses
import LxmfChat.App.Labels
import Mathlib.Data.Char
import Mathlib.Data.List.Lex
import Mathlib.Data.List.ReduceOption

/-! Bookmarks as they are stored, for pages that other pages lead to. -/

namespace LxmfChat

open Base Checked Micron

def bookmarkMaterial (addr : PageAddr) : Bytes :=
  addr.node.val ++ utf8Encode addr.path ++ utf8Encode (varsString addr.vars)

def bookmarkKey (crypto : Crypto) (addr : PageAddr) : Text :=
  hex (truncatedHash crypto (bookmarkMaterial addr)).val

def bookmarkParts (label : Text) (addr : PageAddr) : List Text :=
  [label, hex addr.node.val, addr.path, varsString addr.vars]

def persistBookmark (crypto : Crypto) (dict : Table Text Bytes) (label : Text) (addr : PageAddr) :
    Table Text Bytes :=
  (dict.erase (bookmarkKey crypto addr)).insert (bookmarkKey crypto addr)
    (utf8Encode (['\x00'].intercalate (bookmarkParts label addr)))

/-- The dictionary holds the bookmarks, the latest one first, and nothing else. -/
structure Stored (crypto : Crypto) (dict : Table Text Bytes) (entries : List (Text × PageAddr)) :
    Prop where
  keys : dict.keys = (entries.map fun e => bookmarkKey crypto e.2).reverse
  values : ∀ e ∈ entries, dict.lookup (bookmarkKey crypto e.2) =
    some (utf8Encode (['\x00'].intercalate (bookmarkParts e.1 e.2)))

theorem Stored.persist {crypto : Crypto} {dict : Table Text Bytes} {entries : List (Text × PageAddr)}
    (stored : Stored crypto dict entries) (label : Text) {addr : PageAddr}
    (fresh : ∀ e ∈ entries, bookmarkKey crypto e.2 ≠ bookmarkKey crypto addr) :
    Stored crypto (persistBookmark crypto dict label addr) (entries ++ [(label, addr)]) where
  keys := by
    have absent : bookmarkKey crypto addr ∉ dict.keys := by
      rw [stored.keys, List.mem_reverse, List.mem_map]
      rintro ⟨e, there, same⟩
      exact fresh e there same
    have stays : dict.erase (bookmarkKey crypto addr) = dict :=
      AList.ext (List.kerase_of_notMem_keys absent)
    rw [persistBookmark, stays, AList.keys, AList.entries_insert_of_notMem absent, List.keys_cons,
      ← AList.keys, stored.keys, List.map_append, List.reverse_append]
    rfl
  values e there := by
    rcases List.mem_append.mp there with before | last
    · rw [persistBookmark, AList.lookup_insert_ne (fresh e before),
        AList.lookup_erase_ne (fresh e before), stored.values e before]
    · rw [List.mem_singleton.mp last]
      exact AList.lookup_insert ..

end LxmfChat
