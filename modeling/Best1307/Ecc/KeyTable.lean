import Best1307.Ecc.Order

/-!
# The table of the base point

`ecc_p256.c`: the base point and what it is doubled to 64, 128 and 192 times, and the sums of any of these four.
-/

namespace Best1307.Ecc

namespace JacobianPoint256

open Homogeneous (ladderMod sameMod ofBits)

/-- `ECC_4Win_Look_up_table`; the `z` of the first entry is 1. -/
def ecc4WinLookUpTable : List JacobianPoint256 := [
  ⟨⟨⟨[0x00000000, 0x6b17d1f2, 0xe12c4247, 0xf8bce6e5, 0x63a440f2, 0x77037d81, 0x2deb33a0, 0xf4a13945, 0xd898c296],
      rfl⟩, 8, false⟩,
    ⟨⟨[0x00000000, 0x4fe342e2, 0xfe1a7f9b, 0x8ee7eb4a, 0x7c0f9e16, 0x2bce3357, 0x6b315ece, 0xcbb64068, 0x37bf51f5],
      rfl⟩, 8, false⟩,
    infinityPoint256.y⟩,
  ⟨⟨⟨[0x00000000, 0x8f228205, 0x98a60fe3, 0xc582a4e4, 0xe495f299, 0x7b48a1de, 0x965059a9, 0x18c3c50b, 0xb251a29d],
      rfl⟩, 8, false⟩,
    ⟨⟨[0x00000000, 0x468ab3e5, 0x1fcb4722, 0x9871e7e9, 0x5bf28286, 0xcd448ed3, 0xeb0c78ec, 0xd34eac12, 0x1d285bc2],
      rfl⟩, 8, false⟩,
    ⟨⟨[0x00000000, 0xc297492c, 0x20cce496, 0x6ae2cd2b, 0x58b75e48, 0xffbd5489, 0x95ef960d, 0x41e274dc, 0x1e5b3ed6],
      rfl⟩, 8, false⟩⟩,
  ⟨⟨⟨[0x00000000, 0x0bad26fb, 0xd93b1ab7, 0xe8448e98, 0xe098c19f, 0x90e3156a, 0x94ae76e3, 0x56e8bcaa, 0x5d210197],
      rfl⟩, 8, false⟩,
    ⟨⟨[0x00000000, 0x4a1d6bbe, 0xdf46a06f, 0x7d761828, 0x7a69fd83, 0x346c8ed1, 0xef774189, 0xb0e36138, 0x55bd8d83],
      rfl⟩, 8, false⟩,
    ⟨⟨[0x00000000, 0x30939029, 0xdb214543, 0x21313957, 0xaec9c854, 0xa4b23170, 0xb0cee4c4, 0x6f2ec46c, 0xdf0d9342],
      rfl⟩, 8, false⟩⟩,
  ⟨⟨⟨[0x00000000, 0xe1aa8f71, 0x41bfe1ed, 0x0ab48559, 0x9b5779eb, 0xec8b9353, 0x3c5bde62, 0x423df00d, 0x2b1cb5f2],
      rfl⟩, 8, false⟩,
    ⟨⟨[0x00000000, 0xd2f122ef, 0x80385047, 0x8290ab2a, 0x627771ec, 0x4eccef63, 0x34a3d343, 0xc0a9f7e6, 0x56103895],
      rfl⟩, 8, false⟩,
    ⟨⟨[0x00000000, 0x9182b500, 0x3bc1da72, 0xe3be14e0, 0xfb0c2593, 0x330522bd, 0x83326ee2, 0xe2457d8e, 0x6de1783e],
      rfl⟩, 8, false⟩⟩,
  ⟨⟨⟨[0x00000000, 0x6a140c55, 0x70ae60a6, 0x1eab131d, 0xf0a7b995, 0x5ca52eee, 0x3a03b007, 0xa6fc97e6, 0x0ddcd000],
      rfl⟩, 8, false⟩,
    ⟨⟨[0x00000000, 0x32665be0, 0xdea111a9, 0xf1de8948, 0xb01514c3, 0x6e693bab, 0xf68c4db9, 0xed6307a3, 0xe9ec3df5],
      rfl⟩, 8, false⟩,
    ⟨⟨[0x00000000, 0xc53bb6c4, 0x0c028674, 0xca4dbb66, 0x216624f8, 0x939409db, 0x2e75d7fa, 0x62d4b5e6, 0xa8870ac3],
      rfl⟩, 8, false⟩⟩,
  ⟨⟨⟨[0x00000000, 0xcca15363, 0x506327c1, 0xcb6a22b4, 0x5277e102, 0x279482b5, 0xedc0aff9, 0xa43c31e5, 0xee4c7f21],
      rfl⟩, 8, false⟩,
    ⟨⟨[0x00000000, 0x5f706301, 0x91f1e4f4, 0xa011b402, 0x20423775, 0xf79c950c, 0x421df6a0, 0x03e867c6, 0x4d00c6a6],
      rfl⟩, 8, false⟩,
    ⟨⟨[0x00000000, 0xd1c592c6, 0xf4fc29af, 0x17c2bd51, 0xf6c8a5ea, 0x99169413, 0xcc8fbce7, 0x8d146d21, 0x31592204],
      rfl⟩, 8, false⟩⟩,
  ⟨⟨⟨[0x00000000, 0xf8af31df, 0x7a189edd, 0xb7a3dec5, 0x822322ab, 0x68811a4a, 0xb165dd62, 0x16e93bed, 0xa6327b8f],
      rfl⟩, 8, false⟩,
    ⟨⟨[0x00000000, 0x4f09a05f, 0xac180f41, 0x62aa8320, 0xe134a671, 0x366e374f, 0xff2a6698, 0x68ee233e, 0x77bf98d2],
      rfl⟩, 8, false⟩,
    ⟨⟨[0x00000000, 0xc13ed81b, 0xdf7bdf9f, 0x50f3b993, 0x8aed5397, 0x8b06ec6c, 0x01b7c151, 0x11c42b81, 0x3f40f476],
      rfl⟩, 8, false⟩⟩,
  ⟨⟨⟨[0x00000000, 0x3d01d0ab, 0xc5953e53, 0xe5d138e3, 0xd692d41a, 0x616f5757, 0x559bc2d9, 0x2888c2bc, 0xc4e2afba],
      rfl⟩, 8, false⟩,
    ⟨⟨[0x00000000, 0x193f2d8a, 0x1f2eb204, 0x8247f138, 0x028cf01a, 0x45ce2623, 0x6dd5a56f, 0x70743576, 0x8cdfbfbf],
      rfl⟩, 8, false⟩,
    ⟨⟨[0x00000000, 0x4a03bfe8, 0x5bdb2daa, 0x2679f907, 0x08a92d0d, 0xd6ca8939, 0x7a68fb2d, 0xf14a32d8, 0x08ed7f2f],
      rfl⟩, 8, false⟩⟩,
  ⟨⟨⟨[0x00000000, 0x339d3514, 0x3ab7894b, 0x6d62618d, 0x19a5f8d6, 0xbc4cb6e5, 0x2a11ea88, 0xc6bba46d, 0x0ca352d1],
      rfl⟩, 8, false⟩,
    ⟨⟨[0x00000000, 0xdc93a482, 0xde79b694, 0x5961a59f, 0xde2670e0, 0x4efacd9f, 0xa462ea51, 0x4b7dc4a3, 0xc108c7bb],
      rfl⟩, 8, false⟩,
    ⟨⟨[0x00000000, 0xce26909e, 0x040d04a8, 0x1f890e57, 0xc1da3605, 0x6fcc9c5b, 0x6e870e7d, 0xdbefc849, 0xc4167fe7],
      rfl⟩, 8, false⟩⟩,
  ⟨⟨⟨[0x00000000, 0xfd00adb9, 0xb97301c9, 0xa9cc2bcc, 0x6007da4f, 0x30ec4dbf, 0x31259407, 0xba732617, 0x928f48bb],
      rfl⟩, 8, false⟩,
    ⟨⟨[0x00000000, 0x880df759, 0x2b7b4d98, 0xb051aed9, 0x3df1dddc, 0x56c93d8f, 0x17148250, 0x867c1c89, 0xc3bfd08b],
      rfl⟩, 8, false⟩,
    ⟨⟨[0x00000000, 0xfcae15e2, 0xdc42b476, 0xc8c68143, 0xcfcc9446, 0xa73fea01, 0x45370be0, 0x9e1d98cb, 0xe781fd4b],
      rfl⟩, 8, false⟩⟩,
  ⟨⟨⟨[0x00000000, 0xd2015a57, 0xf4f6398f, 0xb1e1d191, 0x4a7841e7, 0x463c9536, 0xc59ce39d, 0x41f55168, 0xe5be91e1],
      rfl⟩, 8, false⟩,
    ⟨⟨[0x00000000, 0x06b9ac4a, 0x0b8a2038, 0xae8645b7, 0x46732630, 0x83f58c9f, 0xdc2715a4, 0x11cd96d4, 0x6ae3edb0],
      rfl⟩, 8, false⟩,
    ⟨⟨[0x00000000, 0x2a8b67f7, 0xe0526c09, 0x0cea0b00, 0x2ebf997d, 0x85d2d9d6, 0x76007cca, 0x264536cc, 0x109cee08],
      rfl⟩, 8, false⟩⟩,
  ⟨⟨⟨[0x00000000, 0xffcb0a9a, 0x7dfe6606, 0xeecf47ad, 0x4c3c4a4e, 0x39a621a3, 0xc310b661, 0x115a0335, 0x6f55f312],
      rfl⟩, 8, false⟩,
    ⟨⟨[0x00000000, 0xe572e4df, 0x83286cb4, 0x0ddea98c, 0x8958c6b3, 0xaa0751fa, 0xb23793d8, 0x7f73946e, 0xc5ccf9f8],
      rfl⟩, 8, false⟩,
    ⟨⟨[0x00000000, 0xef20af4e, 0x7295b11e, 0x8f6d3d02, 0x240a3dac, 0x0349cce0, 0xf30b0638, 0x136b84c0, 0x966e7415],
      rfl⟩, 8, false⟩⟩,
  ⟨⟨⟨[0x00000000, 0xc94d5b90, 0xb318d9ea, 0x9dd27189, 0x1ae71799, 0xbf5ce7a4, 0xd629696e, 0xa97d5e61, 0x7021cf29],
      rfl⟩, 8, false⟩,
    ⟨⟨[0x00000000, 0x56f3c6fe, 0xcafa2a29, 0x0159021d, 0x82bd1799, 0xff6974d1, 0x5e49646b, 0x5dea5f0b, 0x32e88933],
      rfl⟩, 8, false⟩,
    ⟨⟨[0x00000000, 0x1c135301, 0x5f858c20, 0x4d4352f5, 0xc186b6ca, 0x582f44e2, 0xc250446a, 0x49733d20, 0xaadce543],
      rfl⟩, 8, false⟩⟩,
  ⟨⟨⟨[0x00000000, 0xbe6e27b3, 0x2cdf8dba, 0xfc1056e5, 0x9f0a28b2, 0x1b69f4ba, 0x15cd8668, 0x702aa678, 0xa2977270],
      rfl⟩, 8, false⟩,
    ⟨⟨[0x00000000, 0x7f5b3426, 0x7b6a8b10, 0xfbf97ffd, 0xc6fde4b3, 0x4e959e1d, 0xa067b6e1, 0x869c4fbe, 0x272ab43a],
      rfl⟩, 8, false⟩,
    ⟨⟨[0x00000000, 0xe3892e89, 0xb6d2b79d, 0xb0e0674d, 0x1287752e, 0x66d42cc6, 0xabe0db83, 0x5de74ac4, 0x9c6d041d],
      rfl⟩, 8, false⟩⟩,
  ⟨⟨⟨[0x00000000, 0x24366156, 0xcb659023, 0xf21be5dd, 0xa2b9fe84, 0xb402833f, 0x46a7b876, 0xb9488cde, 0x4727a595],
      rfl⟩, 8, false⟩,
    ⟨⟨[0x00000000, 0xf0fa6956, 0xd8c7af3e, 0xe73bc2d4, 0xec911c8f, 0x37442d40, 0x7daad19c, 0xa47910e1, 0xa5c5e688],
      rfl⟩, 8, false⟩,
    ⟨⟨[0x00000000, 0x5884f036, 0xbd33a657, 0x6f1f822e, 0x6fb9caa5, 0xfdd2a20e, 0xc14bde4d, 0xe2d3ef31, 0xaf4554fb],
      rfl⟩, 8, false⟩⟩]

/-- The multiple of the base point that is chosen by four bits -/
def tableMultiple (index : Nat) : Nat :=
  index % 2 + index / 2 % 2 * 2 ^ 64 + index / 4 % 2 * 2 ^ 128 + index / 8 % 2 * 2 ^ 192

variable {P : JacobianPoint256} {m : Nat}

/-- The numbers of `P` are the coordinates of a multiple of the base point. -/
def isMultiple (P : JacobianPoint256) (m : Nat) : Bool :=
  decide (P.x.IsNormal ∧ P.y.IsNormal ∧ P.z.IsNormal) && ofBits 1 (bitsOf m) == m &&
    (ladderMod p256 baseNumbers (bitsOf m) baseNumbers).any (sameMod p256 · ⟨P.x.value, P.y.value, P.z.value⟩)

theorem represents_of_isMultiple (h : P.isMultiple m = true) : P.Represents (m • basePoint) := by
  rw [isMultiple, Bool.and_eq_true, Bool.and_eq_true, decide_eq_true_iff, beq_iff_eq] at h
  obtain ⟨⟨⟨hx, hy, hz⟩, hbits⟩, hladder⟩ := h
  exact (denotes_coordinates hx hy hz).represents (ladder_represents hbits hladder)

theorem table_isMultiple :
    ∀ i < 15, (ecc4WinLookUpTable.getD i infinityPoint256).isMultiple (tableMultiple (i + 1)) = true := by
  decide +kernel

end JacobianPoint256

end Best1307.Ecc
