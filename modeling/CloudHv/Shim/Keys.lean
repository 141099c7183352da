import CloudHv.Lib.Fnv
import CloudHv.Lib.Json
import CloudHv.Lib.Text
import CloudHv.Common.Netlink
import CloudHv.Shim.Erofs

/-!
# Keys — the cache keys of images

`stable_hash_hex` of `crates/shim/src/instance.rs` is FNV-1a with 128 bits, in hexadecimal digits.  `start_container`
takes the key of a container's image from it: over the digest containerd knows for the image, else the image's name,
else the path of the rootfs.

The digits determine the hash (`stableHashHex_inj`), and with what is known of the hash (`Fnv`), keys of inputs that
differ in one byte are different, and so are the erofs files of the images (`cachePath_imageKey`).
-/

namespace CloudHv.Shim.Keys

open Netlink (asBytes)

/-! ### The code -/

def fnv1a : Fnv 128 where
  basis := 0x6c62272e07bb014262b821756295c58d
  prime := 0x0000000001000000000000000000013b
  prime_odd := by decide
  byte_le := by decide

def stableHash (input : String) : BitVec 128 := fnv1a.hash (asBytes input)

def stableHashHex (input : String) : String := Text.hex 32 (stableHash input).toNat

/-- `spec.pointer("/annotations/io.kubernetes.cri.image-name")`, when it is a string with something in it. -/
def imageName (spec : Json) : Option String :=
  (((spec.get "annotations").bind (·.get "io.kubernetes.cri.image-name")).bind Json.asStr).filter (· ≠ "")

/-- The parsed `config.json`, if there is one, and what containerd answers. -/
def imageKeyFromSpec (spec : Option Json) (resolveImageDigest : String → Option String) : Option String :=
  (spec.bind imageName).map fun name =>
    match resolveImageDigest name with
    | some digest => stableHashHex digest
    | none => stableHashHex name

/-- The key in `start_container`. -/
def imageKey (spec : Option Json) (resolveImageDigest : String → Option String) (rootfsPath : String) : String :=
  (imageKeyFromSpec spec resolveImageDigest).getD (stableHashHex rootfsPath)

/-! ### The digits -/

theorem toList_stableHashHex (input : String) :
    (stableHashHex input).toList = Text.hexDigits 32 (stableHash input).toNat :=
  Text.toList_hex (by decide) (stableHash input).isLt

theorem stableHashHex_inj {x y : String} : stableHashHex x = stableHashHex y ↔ stableHash x = stableHash y := by
  refine ⟨fun h => ?_, fun h => by rw [stableHashHex, stableHashHex, h]⟩
  have hdigits := congrArg String.toList h
  rw [toList_stableHashHex, toList_stableHashHex] at hdigits
  exact BitVec.eq_of_toNat_eq (Text.hexDigits_inj (stableHash x).isLt (stableHash y).isLt hdigits)

theorem asBytes_append (s t : String) : asBytes (s ++ t) = asBytes s ++ asBytes t := by
  simp [asBytes]

theorem stableHash_append (x s : String) : stableHash (x ++ s) = fnv1a.hash (asBytes x ++ asBytes s) := by
  rw [stableHash, asBytes_append]

theorem length_stableHashHex (input : String) : (stableHashHex input).length = 32 := by
  rw [← String.length_toList, toList_stableHashHex, Text.length_hexDigits]

theorem mem_stableHashHex {input : String} {c : Char} (h : c ∈ (stableHashHex input).toList) :
    c ∈ "0123456789abcdef".toList := by
  rw [toList_stableHashHex] at h
  exact Text.mem_hexDigits h

/-- Keys of inputs that differ in a byte are different, a common end changes nothing, and a key is its hash in digits. -/
theorem stableHashHex_separates :
    (∀ (p s : List UInt8) (b c : UInt8) (x y : String), b ≠ c → asBytes x = p ++ b :: s → asBytes y = p ++ c :: s →
        stableHashHex x ≠ stableHashHex y) ∧
      (∀ x y s : String, stableHashHex (x ++ s) = stableHashHex (y ++ s) ↔ stableHashHex x = stableHashHex y) ∧
      ∀ x : String, (stableHashHex x).length = 32 ∧ (∀ c ∈ (stableHashHex x).toList, c ∈ "0123456789abcdef".toList) ∧
        ∀ y : String, stableHashHex x = stableHashHex y ↔ stableHash x = stableHash y := by
  refine ⟨fun p s b c x y hbc hx hy heq => hbc ?_, fun x y s => ?_, fun x => ?_⟩
  · rw [stableHashHex_inj, stableHash, stableHash, hx, hy] at heq
    exact Fnv.hash_byte_inj.mp heq
  · rw [stableHashHex_inj, stableHashHex_inj, stableHash_append, stableHash_append]
    exact Fnv.hash_append_inj
  · exact ⟨length_stableHashHex x, fun c hc => mem_stableHashHex hc, fun y => stableHashHex_inj⟩

theorem stableHashHex_separates_tags : stableHashHex "nginx:1" ≠ stableHashHex "nginx:2" :=
  stableHashHex_separates.1 (asBytes "nginx:") [] 0x31 0x32 "nginx:1" "nginx:2" (by decide) rfl rfl

/-! ### The keys of images -/

/-- What the key of a container's image is the hash of. -/
def keyed (spec : Option Json) (resolveImageDigest : String → Option String) (rootfsPath : String) : String :=
  match spec.bind imageName with
  | some name => (resolveImageDigest name).getD name
  | none => rootfsPath

theorem imageKey_eq (spec : Option Json) (resolveImageDigest : String → Option String) (rootfsPath : String) :
    imageKey spec resolveImageDigest rootfsPath = stableHashHex (keyed spec resolveImageDigest rootfsPath) := by
  rw [imageKey, imageKeyFromSpec, keyed]
  cases spec.bind imageName with
  | none => rfl
  | some name =>
    rw [Option.map_some, Option.getD_some]
    show _ = stableHashHex ((resolveImageDigest name).getD name)
    cases resolveImageDigest name with
    | none => rfl
    | some digest => rfl

/-- A key is a relative path. -/
theorem head_stableHashHex (input ext : String) : (stableHashHex input ++ ext).toList.head? ≠ some '/' := by
  have hpos : 0 < (stableHashHex input).toList.length := by
    rw [String.length_toList, length_stableHashHex]
    decide
  obtain ⟨c, l, hl⟩ := List.exists_cons_of_length_pos hpos
  have hc : c ∈ "0123456789abcdef".toList := mem_stableHashHex (hl ▸ List.mem_cons_self)
  have hslash : '/' ∉ "0123456789abcdef".toList := by decide
  rw [String.toList_append, hl, List.cons_append, List.head?_cons]
  exact fun h => hslash (Option.some.inj h ▸ hc)

/-- Two keys give one erofs file exactly if their inputs have one hash. -/
theorem cachePath_inj {x y : String} :
    Erofs.cachePath (stableHashHex x) = Erofs.cachePath (stableHashHex y) ↔ stableHash x = stableHash y := by
  rw [← stableHashHex_inj]
  refine ⟨fun h => ?_, fun h => h ▸ rfl⟩
  rw [Erofs.cachePath, Erofs.cachePath, Erofs.join, Erofs.join, if_neg (head_stableHashHex x _),
    if_neg (head_stableHashHex y _)] at h
  have hlist := congrArg String.toList h
  simp only [String.toList_append, List.append_assoc, List.append_cancel_left_eq, List.append_cancel_right_eq] at hlist
  exact String.toList_inj.mp hlist

/-- Containers share an erofs file exactly if what their images are known by has one hash. -/
theorem cachePath_imageKey {spec spec' : Option Json} {resolve resolve' : String → Option String}
    {rootfs rootfs' : String} :
    Erofs.cachePath (imageKey spec resolve rootfs) = Erofs.cachePath (imageKey spec' resolve' rootfs') ↔
      stableHash (keyed spec resolve rootfs) = stableHash (keyed spec' resolve' rootfs') := by
  rw [imageKey_eq, imageKey_eq]
  exact cachePath_inj

end CloudHv.Shim.Keys
