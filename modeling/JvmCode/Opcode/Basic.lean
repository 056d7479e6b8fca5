import JvmCode.Opcode.Family

/-! # Opcodes

The closed set of opcodes and its one table. The forms behind the `wide` byte are opcodes of their own
(`iloadW`), so an opcode alone fixes the encoded shape of its instruction.

* **`Opcode.row`** is the table: code, mnemonic, family and encoded size of every opcode.
* **`Opcode.all`** lists the opcodes in code order, the wide forms last. -/

namespace JvmCode

/-- The opcodes, in code order; the wide forms come last. -/
inductive Opcode where
  | nop | aconstNull | iconstM1 | iconst0 | iconst1 | iconst2 | iconst3 | iconst4 | iconst5
  | lconst0 | lconst1 | fconst0 | fconst1 | fconst2 | dconst0 | dconst1 | bipush | sipush | ldc
  | ldcW | ldc2W | iload | lload | fload | dload | aload | iload0 | iload1 | iload2 | iload3
  | lload0 | lload1 | lload2 | lload3 | fload0 | fload1 | fload2 | fload3 | dload0 | dload1
  | dload2 | dload3 | aload0 | aload1 | aload2 | aload3 | iaload | laload | faload | daload
  | aaload | baload | caload | saload | istore | lstore | fstore | dstore | astore | istore0
  | istore1 | istore2 | istore3 | lstore0 | lstore1 | lstore2 | lstore3 | fstore0 | fstore1
  | fstore2 | fstore3 | dstore0 | dstore1 | dstore2 | dstore3 | astore0 | astore1 | astore2
  | astore3 | iastore | lastore | fastore | dastore | aastore | bastore | castore | sastore | pop
  | pop2 | dup | dupX1 | dupX2 | dup2 | dup2X1 | dup2X2 | swap | iadd | ladd | fadd | dadd | isub
  | lsub | fsub | dsub | imul | lmul | fmul | dmul | idiv | ldiv | fdiv | ddiv | irem | lrem
  | frem | drem | ineg | lneg | fneg | dneg | ishl | lshl | ishr | lshr | iushr | lushr | iand
  | land | ior | lor | ixor | lxor | iinc | i2l | i2f | i2d | l2i | l2f | l2d | f2i | f2l | f2d
  | d2i | d2l | d2f | i2b | i2c | i2s | lcmp | fcmpl | fcmpg | dcmpl | dcmpg | ifeq | ifne | iflt
  | ifge | ifgt | ifle | ifIcmpeq | ifIcmpne | ifIcmplt | ifIcmpge | ifIcmpgt | ifIcmple
  | ifAcmpeq | ifAcmpne | goto | jsr | ret | tableswitch | lookupswitch | ireturn | lreturn
  | freturn | dreturn | areturn | returnVoid | getstatic | putstatic | getfield | putfield
  | invokevirtual | invokespecial | invokestatic | invokeinterface | invokedynamic | new
  | newarray | anewarray | arraylength | athrow | checkcast | instanceof | monitorenter
  | monitorexit | multianewarray | ifnull | ifnonnull | gotoW | jsrW | iloadW | lloadW | floadW
  | dloadW | aloadW | istoreW | lstoreW | fstoreW | dstoreW | astoreW | iincW | retW
  deriving DecidableEq, Repr, Hashable

/-- What the opcode table says about one opcode. -/
structure OpcodeRow where
  /-- The numeric code: one byte, or `0xc4` and the byte behind it for a wide form. -/
  code : UInt16
  /-- The assembler name. -/
  mnemonic : String
  /-- The family the opcode belongs to. -/
  family : Family
  /-- The encoded length with all operands, or `none` where it depends on position and operands. -/
  size : Option Nat
  deriving DecidableEq, Repr

namespace Opcode

/-- The opcode table. -/
def row : Opcode → OpcodeRow
  | .nop => ⟨0x00, "nop", .nop, some 1⟩
  | .aconstNull => ⟨0x01, "aconst_null", .constant, some 1⟩
  | .iconstM1 => ⟨0x02, "iconst_m1", .constant, some 1⟩
  | .iconst0 => ⟨0x03, "iconst_0", .constant, some 1⟩
  | .iconst1 => ⟨0x04, "iconst_1", .constant, some 1⟩
  | .iconst2 => ⟨0x05, "iconst_2", .constant, some 1⟩
  | .iconst3 => ⟨0x06, "iconst_3", .constant, some 1⟩
  | .iconst4 => ⟨0x07, "iconst_4", .constant, some 1⟩
  | .iconst5 => ⟨0x08, "iconst_5", .constant, some 1⟩
  | .lconst0 => ⟨0x09, "lconst_0", .constant, some 1⟩
  | .lconst1 => ⟨0x0a, "lconst_1", .constant, some 1⟩
  | .fconst0 => ⟨0x0b, "fconst_0", .constant, some 1⟩
  | .fconst1 => ⟨0x0c, "fconst_1", .constant, some 1⟩
  | .fconst2 => ⟨0x0d, "fconst_2", .constant, some 1⟩
  | .dconst0 => ⟨0x0e, "dconst_0", .constant, some 1⟩
  | .dconst1 => ⟨0x0f, "dconst_1", .constant, some 1⟩
  | .bipush => ⟨0x10, "bipush", .constant, some 2⟩
  | .sipush => ⟨0x11, "sipush", .constant, some 3⟩
  | .ldc => ⟨0x12, "ldc", .constant, some 2⟩
  | .ldcW => ⟨0x13, "ldc_w", .constant, some 3⟩
  | .ldc2W => ⟨0x14, "ldc2_w", .constant, some 3⟩
  | .iload => ⟨0x15, "iload", .load, some 2⟩
  | .lload => ⟨0x16, "lload", .load, some 2⟩
  | .fload => ⟨0x17, "fload", .load, some 2⟩
  | .dload => ⟨0x18, "dload", .load, some 2⟩
  | .aload => ⟨0x19, "aload", .load, some 2⟩
  | .iload0 => ⟨0x1a, "iload_0", .load, some 1⟩
  | .iload1 => ⟨0x1b, "iload_1", .load, some 1⟩
  | .iload2 => ⟨0x1c, "iload_2", .load, some 1⟩
  | .iload3 => ⟨0x1d, "iload_3", .load, some 1⟩
  | .lload0 => ⟨0x1e, "lload_0", .load, some 1⟩
  | .lload1 => ⟨0x1f, "lload_1", .load, some 1⟩
  | .lload2 => ⟨0x20, "lload_2", .load, some 1⟩
  | .lload3 => ⟨0x21, "lload_3", .load, some 1⟩
  | .fload0 => ⟨0x22, "fload_0", .load, some 1⟩
  | .fload1 => ⟨0x23, "fload_1", .load, some 1⟩
  | .fload2 => ⟨0x24, "fload_2", .load, some 1⟩
  | .fload3 => ⟨0x25, "fload_3", .load, some 1⟩
  | .dload0 => ⟨0x26, "dload_0", .load, some 1⟩
  | .dload1 => ⟨0x27, "dload_1", .load, some 1⟩
  | .dload2 => ⟨0x28, "dload_2", .load, some 1⟩
  | .dload3 => ⟨0x29, "dload_3", .load, some 1⟩
  | .aload0 => ⟨0x2a, "aload_0", .load, some 1⟩
  | .aload1 => ⟨0x2b, "aload_1", .load, some 1⟩
  | .aload2 => ⟨0x2c, "aload_2", .load, some 1⟩
  | .aload3 => ⟨0x2d, "aload_3", .load, some 1⟩
  | .iaload => ⟨0x2e, "iaload", .arrayLoad, some 1⟩
  | .laload => ⟨0x2f, "laload", .arrayLoad, some 1⟩
  | .faload => ⟨0x30, "faload", .arrayLoad, some 1⟩
  | .daload => ⟨0x31, "daload", .arrayLoad, some 1⟩
  | .aaload => ⟨0x32, "aaload", .arrayLoad, some 1⟩
  | .baload => ⟨0x33, "baload", .arrayLoad, some 1⟩
  | .caload => ⟨0x34, "caload", .arrayLoad, some 1⟩
  | .saload => ⟨0x35, "saload", .arrayLoad, some 1⟩
  | .istore => ⟨0x36, "istore", .store, some 2⟩
  | .lstore => ⟨0x37, "lstore", .store, some 2⟩
  | .fstore => ⟨0x38, "fstore", .store, some 2⟩
  | .dstore => ⟨0x39, "dstore", .store, some 2⟩
  | .astore => ⟨0x3a, "astore", .store, some 2⟩
  | .istore0 => ⟨0x3b, "istore_0", .store, some 1⟩
  | .istore1 => ⟨0x3c, "istore_1", .store, some 1⟩
  | .istore2 => ⟨0x3d, "istore_2", .store, some 1⟩
  | .istore3 => ⟨0x3e, "istore_3", .store, some 1⟩
  | .lstore0 => ⟨0x3f, "lstore_0", .store, some 1⟩
  | .lstore1 => ⟨0x40, "lstore_1", .store, some 1⟩
  | .lstore2 => ⟨0x41, "lstore_2", .store, some 1⟩
  | .lstore3 => ⟨0x42, "lstore_3", .store, some 1⟩
  | .fstore0 => ⟨0x43, "fstore_0", .store, some 1⟩
  | .fstore1 => ⟨0x44, "fstore_1", .store, some 1⟩
  | .fstore2 => ⟨0x45, "fstore_2", .store, some 1⟩
  | .fstore3 => ⟨0x46, "fstore_3", .store, some 1⟩
  | .dstore0 => ⟨0x47, "dstore_0", .store, some 1⟩
  | .dstore1 => ⟨0x48, "dstore_1", .store, some 1⟩
  | .dstore2 => ⟨0x49, "dstore_2", .store, some 1⟩
  | .dstore3 => ⟨0x4a, "dstore_3", .store, some 1⟩
  | .astore0 => ⟨0x4b, "astore_0", .store, some 1⟩
  | .astore1 => ⟨0x4c, "astore_1", .store, some 1⟩
  | .astore2 => ⟨0x4d, "astore_2", .store, some 1⟩
  | .astore3 => ⟨0x4e, "astore_3", .store, some 1⟩
  | .iastore => ⟨0x4f, "iastore", .arrayStore, some 1⟩
  | .lastore => ⟨0x50, "lastore", .arrayStore, some 1⟩
  | .fastore => ⟨0x51, "fastore", .arrayStore, some 1⟩
  | .dastore => ⟨0x52, "dastore", .arrayStore, some 1⟩
  | .aastore => ⟨0x53, "aastore", .arrayStore, some 1⟩
  | .bastore => ⟨0x54, "bastore", .arrayStore, some 1⟩
  | .castore => ⟨0x55, "castore", .arrayStore, some 1⟩
  | .sastore => ⟨0x56, "sastore", .arrayStore, some 1⟩
  | .pop => ⟨0x57, "pop", .stack, some 1⟩
  | .pop2 => ⟨0x58, "pop2", .stack, some 1⟩
  | .dup => ⟨0x59, "dup", .stack, some 1⟩
  | .dupX1 => ⟨0x5a, "dup_x1", .stack, some 1⟩
  | .dupX2 => ⟨0x5b, "dup_x2", .stack, some 1⟩
  | .dup2 => ⟨0x5c, "dup2", .stack, some 1⟩
  | .dup2X1 => ⟨0x5d, "dup2_x1", .stack, some 1⟩
  | .dup2X2 => ⟨0x5e, "dup2_x2", .stack, some 1⟩
  | .swap => ⟨0x5f, "swap", .stack, some 1⟩
  | .iadd => ⟨0x60, "iadd", .operator, some 1⟩
  | .ladd => ⟨0x61, "ladd", .operator, some 1⟩
  | .fadd => ⟨0x62, "fadd", .operator, some 1⟩
  | .dadd => ⟨0x63, "dadd", .operator, some 1⟩
  | .isub => ⟨0x64, "isub", .operator, some 1⟩
  | .lsub => ⟨0x65, "lsub", .operator, some 1⟩
  | .fsub => ⟨0x66, "fsub", .operator, some 1⟩
  | .dsub => ⟨0x67, "dsub", .operator, some 1⟩
  | .imul => ⟨0x68, "imul", .operator, some 1⟩
  | .lmul => ⟨0x69, "lmul", .operator, some 1⟩
  | .fmul => ⟨0x6a, "fmul", .operator, some 1⟩
  | .dmul => ⟨0x6b, "dmul", .operator, some 1⟩
  | .idiv => ⟨0x6c, "idiv", .operator, some 1⟩
  | .ldiv => ⟨0x6d, "ldiv", .operator, some 1⟩
  | .fdiv => ⟨0x6e, "fdiv", .operator, some 1⟩
  | .ddiv => ⟨0x6f, "ddiv", .operator, some 1⟩
  | .irem => ⟨0x70, "irem", .operator, some 1⟩
  | .lrem => ⟨0x71, "lrem", .operator, some 1⟩
  | .frem => ⟨0x72, "frem", .operator, some 1⟩
  | .drem => ⟨0x73, "drem", .operator, some 1⟩
  | .ineg => ⟨0x74, "ineg", .operator, some 1⟩
  | .lneg => ⟨0x75, "lneg", .operator, some 1⟩
  | .fneg => ⟨0x76, "fneg", .operator, some 1⟩
  | .dneg => ⟨0x77, "dneg", .operator, some 1⟩
  | .ishl => ⟨0x78, "ishl", .operator, some 1⟩
  | .lshl => ⟨0x79, "lshl", .operator, some 1⟩
  | .ishr => ⟨0x7a, "ishr", .operator, some 1⟩
  | .lshr => ⟨0x7b, "lshr", .operator, some 1⟩
  | .iushr => ⟨0x7c, "iushr", .operator, some 1⟩
  | .lushr => ⟨0x7d, "lushr", .operator, some 1⟩
  | .iand => ⟨0x7e, "iand", .operator, some 1⟩
  | .land => ⟨0x7f, "land", .operator, some 1⟩
  | .ior => ⟨0x80, "ior", .operator, some 1⟩
  | .lor => ⟨0x81, "lor", .operator, some 1⟩
  | .ixor => ⟨0x82, "ixor", .operator, some 1⟩
  | .lxor => ⟨0x83, "lxor", .operator, some 1⟩
  | .iinc => ⟨0x84, "iinc", .increment, some 3⟩
  | .i2l => ⟨0x85, "i2l", .convert, some 1⟩
  | .i2f => ⟨0x86, "i2f", .convert, some 1⟩
  | .i2d => ⟨0x87, "i2d", .convert, some 1⟩
  | .l2i => ⟨0x88, "l2i", .convert, some 1⟩
  | .l2f => ⟨0x89, "l2f", .convert, some 1⟩
  | .l2d => ⟨0x8a, "l2d", .convert, some 1⟩
  | .f2i => ⟨0x8b, "f2i", .convert, some 1⟩
  | .f2l => ⟨0x8c, "f2l", .convert, some 1⟩
  | .f2d => ⟨0x8d, "f2d", .convert, some 1⟩
  | .d2i => ⟨0x8e, "d2i", .convert, some 1⟩
  | .d2l => ⟨0x8f, "d2l", .convert, some 1⟩
  | .d2f => ⟨0x90, "d2f", .convert, some 1⟩
  | .i2b => ⟨0x91, "i2b", .convert, some 1⟩
  | .i2c => ⟨0x92, "i2c", .convert, some 1⟩
  | .i2s => ⟨0x93, "i2s", .convert, some 1⟩
  | .lcmp => ⟨0x94, "lcmp", .operator, some 1⟩
  | .fcmpl => ⟨0x95, "fcmpl", .operator, some 1⟩
  | .fcmpg => ⟨0x96, "fcmpg", .operator, some 1⟩
  | .dcmpl => ⟨0x97, "dcmpl", .operator, some 1⟩
  | .dcmpg => ⟨0x98, "dcmpg", .operator, some 1⟩
  | .ifeq => ⟨0x99, "ifeq", .branch, some 3⟩
  | .ifne => ⟨0x9a, "ifne", .branch, some 3⟩
  | .iflt => ⟨0x9b, "iflt", .branch, some 3⟩
  | .ifge => ⟨0x9c, "ifge", .branch, some 3⟩
  | .ifgt => ⟨0x9d, "ifgt", .branch, some 3⟩
  | .ifle => ⟨0x9e, "ifle", .branch, some 3⟩
  | .ifIcmpeq => ⟨0x9f, "if_icmpeq", .branch, some 3⟩
  | .ifIcmpne => ⟨0xa0, "if_icmpne", .branch, some 3⟩
  | .ifIcmplt => ⟨0xa1, "if_icmplt", .branch, some 3⟩
  | .ifIcmpge => ⟨0xa2, "if_icmpge", .branch, some 3⟩
  | .ifIcmpgt => ⟨0xa3, "if_icmpgt", .branch, some 3⟩
  | .ifIcmple => ⟨0xa4, "if_icmple", .branch, some 3⟩
  | .ifAcmpeq => ⟨0xa5, "if_acmpeq", .branch, some 3⟩
  | .ifAcmpne => ⟨0xa6, "if_acmpne", .branch, some 3⟩
  | .goto => ⟨0xa7, "goto", .branch, some 3⟩
  | .jsr => ⟨0xa8, "jsr", .discontinuedJsr, some 3⟩
  | .ret => ⟨0xa9, "ret", .discontinuedRet, some 2⟩
  | .tableswitch => ⟨0xaa, "tableswitch", .tableSwitch, none⟩
  | .lookupswitch => ⟨0xab, "lookupswitch", .lookupSwitch, none⟩
  | .ireturn => ⟨0xac, "ireturn", .methodReturn, some 1⟩
  | .lreturn => ⟨0xad, "lreturn", .methodReturn, some 1⟩
  | .freturn => ⟨0xae, "freturn", .methodReturn, some 1⟩
  | .dreturn => ⟨0xaf, "dreturn", .methodReturn, some 1⟩
  | .areturn => ⟨0xb0, "areturn", .methodReturn, some 1⟩
  | .returnVoid => ⟨0xb1, "return", .methodReturn, some 1⟩
  | .getstatic => ⟨0xb2, "getstatic", .fieldAccess, some 3⟩
  | .putstatic => ⟨0xb3, "putstatic", .fieldAccess, some 3⟩
  | .getfield => ⟨0xb4, "getfield", .fieldAccess, some 3⟩
  | .putfield => ⟨0xb5, "putfield", .fieldAccess, some 3⟩
  | .invokevirtual => ⟨0xb6, "invokevirtual", .invoke, some 3⟩
  | .invokespecial => ⟨0xb7, "invokespecial", .invoke, some 3⟩
  | .invokestatic => ⟨0xb8, "invokestatic", .invoke, some 3⟩
  | .invokeinterface => ⟨0xb9, "invokeinterface", .invoke, some 5⟩
  | .invokedynamic => ⟨0xba, "invokedynamic", .invokeDynamic, some 5⟩
  | .new => ⟨0xbb, "new", .newObject, some 3⟩
  | .newarray => ⟨0xbc, "newarray", .newPrimitiveArray, some 2⟩
  | .anewarray => ⟨0xbd, "anewarray", .newReferenceArray, some 3⟩
  | .arraylength => ⟨0xbe, "arraylength", .operator, some 1⟩
  | .athrow => ⟨0xbf, "athrow", .throwException, some 1⟩
  | .checkcast => ⟨0xc0, "checkcast", .typeCheck, some 3⟩
  | .instanceof => ⟨0xc1, "instanceof", .typeCheck, some 3⟩
  | .monitorenter => ⟨0xc2, "monitorenter", .monitor, some 1⟩
  | .monitorexit => ⟨0xc3, "monitorexit", .monitor, some 1⟩
  | .multianewarray => ⟨0xc5, "multianewarray", .newMultiArray, some 4⟩
  | .ifnull => ⟨0xc6, "ifnull", .branch, some 3⟩
  | .ifnonnull => ⟨0xc7, "ifnonnull", .branch, some 3⟩
  | .gotoW => ⟨0xc8, "goto_w", .branch, some 5⟩
  | .jsrW => ⟨0xc9, "jsr_w", .discontinuedJsr, some 5⟩
  | .iloadW => ⟨0xc415, "iload_w", .load, some 4⟩
  | .lloadW => ⟨0xc416, "lload_w", .load, some 4⟩
  | .floadW => ⟨0xc417, "fload_w", .load, some 4⟩
  | .dloadW => ⟨0xc418, "dload_w", .load, some 4⟩
  | .aloadW => ⟨0xc419, "aload_w", .load, some 4⟩
  | .istoreW => ⟨0xc436, "istore_w", .store, some 4⟩
  | .lstoreW => ⟨0xc437, "lstore_w", .store, some 4⟩
  | .fstoreW => ⟨0xc438, "fstore_w", .store, some 4⟩
  | .dstoreW => ⟨0xc439, "dstore_w", .store, some 4⟩
  | .astoreW => ⟨0xc43a, "astore_w", .store, some 4⟩
  | .iincW => ⟨0xc484, "iinc_w", .increment, some 6⟩
  | .retW => ⟨0xc4a9, "ret_w", .discontinuedRet, some 4⟩

/-- Every opcode, in code order, the wide forms last. -/
def all : List Opcode := (List.range 213).map ofNat

/-- No opcode is missing from `all`. -/
theorem mem_all (op : Opcode) : op ∈ all := by
  refine List.mem_map.mpr ⟨op.ctorIdx, List.mem_range.mpr ?_, ofNat_ctorIdx op⟩
  cases op <;> decide

/-- A decidable property of opcodes can be decided for all of them. -/
instance decidableForall {p : Opcode → Prop} [DecidablePred p] : Decidable (∀ op, p op) :=
  decidable_of_iff (∀ op ∈ all, p op) ⟨fun h op => h op (mem_all op), fun h op _ => h op⟩

/-- The numeric code; wide forms are `0xc4xx`. -/
def code (op : Opcode) : UInt16 := op.row.code

/-- The assembler name. -/
def mnemonic (op : Opcode) : String := op.row.mnemonic

/-- The family the opcode belongs to. -/
def family (op : Opcode) : Family := op.row.family

/-- The encoded length with all operands, where it depends on neither position nor operands. -/
def fixedSize? (op : Opcode) : Option Nat := op.row.size

/-- Whether the opcode stands behind the `wide` byte. -/
def isWide (op : Opcode) : Bool := 0xff < op.code

/-- The byte that announces a wide form. -/
def wideByte : UInt8 := 0xc4

/-- The bytes an opcode is written as: its own byte, behind `wideByte` for the wide forms. -/
def bytes (op : Opcode) : List UInt8 :=
  if op.isWide then [wideByte, op.code.toUInt8] else [op.code.toUInt8]

/-- The mnemonic with its parts joined and capitalised: `iload_w` gives `IloadW`. -/
def title (op : Opcode) : String :=
  String.join ((op.mnemonic.splitOn "_").map String.capitalize)

/-- Every opcode of fixed size occupies at least one byte. -/
theorem fixedSize?_ne_zero : ∀ op : Opcode, op.fixedSize? ≠ some 0 := by
  decide +kernel

end Opcode

end JvmCode
