import SchemaOrder.Unicode.Category
namespace SchemaOrder.Unicode
-- Binary properties of characters. A property is a union of general categories with a list of further code points and a
-- list of exceptions.
structure Property where
  names : List String
  categories : List Category
  further : String
  exceptions : String
namespace Property
def points (p : Property) : CharSet :=
  (CharSet.unionAll (.ofText p.further :: p.categories.map Category.set)).difference (.ofText p.exceptions)

def alphabetic : Property :=
  ⟨["alpha","alphabetic"],[.lu,.ll,.lt,.lm,.lo,.mc,.nl],
    "bgFBxUOBBBCBCBBcULbWNBHQBdXHEECCEBbJBbEQdYLdXCDJBDBEgLMDHGTcDBGIMDKCbDBcLEbDCbDCcKCECCCEBbECDBLCcKFBCZCWDEBcJBBER
      BLCbEBcJBcLBDBcFDFDBDICLCbDBcJBGBFBVCbCCcLEbDCbDBdCDBBdMBCHSBdVBCGBCQBgHOBEJLBbKeIEBFGCZCEDQENBCCGBPBclOCbECbECb
      ECcPHIBhICbIBeODECJBiUCCBcGBBHDBCIGCcWCLDbXEbYFBBFBcJCbGECCCCcGCDBBDcGICBqQOcoNcAdkGbGbtqAIbICnQBIBZCgCBcFBbMFbC
      LbUDbZECCbNBcPGCCCCMBIBbVBbZBBDCCFBbTCjNBCBbdzXBdeDFcmGDBCFEbeIEoXCnCBcCObTCLCbXELBcJDbKFBGcZCcAJQBdRDCBCBGBCBgB
      BDGXCcKBjNIDCeGGBBECjHEGCbECdHICBCBeCBBBCGdZDCEBEkAJjZCfVECCbLKbQECESGCDbUNpTHBGdGWCHBCBCeSGDBBCBDBBDBcUCDBnLCLC
      cAFFBbeiGBcLEbdePBnkJHBRCHBCBFdWBdhVBczWbAGbAGbA",
    "fuCCczDBbEBbnZBdXBcTCjDBVBhhECbtwTBeEBvJBbmoPBeMBkTBbhOByWBchFBcplZCGG"⟩

def asciiHexDigit : Property :=
  ⟨["ahex","asciihexdigit"],[],"bWKHGbAG",""⟩

def bidiControl : Property :=
  ⟨["bidic","bidicontrol"],[],"ciEBjvLCbAFcDE",""⟩

def bidiMirrored : Property :=
  ⟨["bidim","bidimirrored"],[.ps,.pe,.pi,.pf],
    "cIBBBmmZBhKEDGDBDCDEBE/CEJFBBSFEJCBBBICbFCEFBJCCTFCJFCCEYCQbGCbtMBCCDCBDFEFDDEqVGBOIBHGDBEFBCGBEBBDCCKGQTBECBBBCB
      BEFCGDYCLCEEBCCCEbRCIBbOFBBBDFFDEBDFBBjWBdbrPChABBBddsEBcFBcFBcFBcFB","meAIfjEBsGDczrQCiHCbCQCC"⟩

def caseIgnorable : Property :=
  ⟨["caseignorable","ci"],[.lm,.mn,.me,.sk,.cf],"bNBGBLBeUBbbRBsDBfSBjxJCKBCBdgbBBcKBCBgVBGBLB",""⟩

def cased : Property :=
  ⟨["cased"],[.lu,.ll,.lt],
    "gOBPBtHJHCbEFdSBcABfcZBepZcLNBbIbLbaNBNBQNhNbGbfQcAcwOCbugKCiCBeZDDCbhIEJBbiwSBCDBbQBJddzHcKgjAbAGbAGbA",""⟩

def dash : Property :=
  ⟨["dash"],[.pd],"mgHBbNBPBpAB",""⟩

def defaultIgnorableCodePoint : Property :=
  ⟨["defaultignorablecodepoint","di"],[],"gRBzXBbbOBegWCckHCdHFdaPFbAFbXQgkYBczmPQjFBgEBdBJctlNEhwXIbtkzLgbO",""⟩

def deprecated : Property :=
  ⟨["dep","deprecated"],[],"mRBbyVBdkTBBBdcJCdiJGbaVCbzryKB",""⟩

def diacritic : Property :=
  ⟨["dia","diacritic"],[.sk],
    "hBBtKSEMOFHBBBRdBBIFGRBFBkEFiBBcDRBbBBBBCBBfEIECfECECDDcPbBdNLcGLbICeWIbPKQbCcJBQBDEbCBcWBQBeGBQBeGBQBbVDcIBQBHBe
      PBeGBQBeGBQBeFCQBeUBeUGBBeDBNFcXCbBB/CECcODBCcKBeIBBCbOCEFZHBBKCbbDDbkMCgXLJBnJDmBICBbWPCLeABPBbMJcCCfICcMGdEZEB
      GBCDbYcLdLMbLLfrBDmFBtMGeBCdTBbsmKBMCBBbCCdECbLJeABeHChUBbBScFEbKBdRBMBbKBfTDcNEbZBdXEJBfACbdzSBbdPQmIBbTCbgABbt
      NGBbQBJbfECvZGsBDcSLbXEhKBbPBcUCeQCcKBcYBJDeACgWCdDBQBYHDFhXBDBeTCjRCeWBeOCeLBkJCjYCEBgABdFBSBdDBqFBjYBBCdDBipJP
      urQFcHHbqURdCCygCEBHBCltHbUCXuYDDGIICHbEEfmWcKhMHoLBcJEcfWHeFDBD","dgABdocFRdqaAF"⟩

def emoji : Property :=
  ⟨["emoji"],[],
    "bJBGBFKeHBEBlyRBMBiIBWBdMGPCoDCMBgKBZLEDhRBiXCKBJBcGEBFJBCBCCCBEBCBBCCBDBDCIDFBBBFMLCCBBCBBSBCCSGBBBCDCFBCCECLCFC
      CBFCBBBCUCFGBECBEBCBCGBBCB/CGBDBGBKCPBCBEBBBEDBBLCbWDJBOBOBoICrVDTCbZBEBbvUBMBxDBBBgmrQBhUBgECMCOBCKcXbABCXBUBCJ
      VCgSbICeICCBDCdFCDBkDBcLLGBYHCCIMBCECBECNCCBICJBFDMDIDCBBBEBGBDBGdIbWcSFICDEKDBBCDBCKiTMEBkXbVBKBhDeINDJHbUBHIOE
      JHJ",""⟩

def emojiComponent : Property :=
  ⟨["ecomp","emojicomponent"],[],"bJBGBFKmbJBiFBdftRBdoiWbAtNFceAEbsvuQdS",""⟩

def emojiModifier : Property :=
  ⟨["emod","emojimodifier"],[],"hhiXF",""⟩

def emojiModifierBase : Property :=
  ⟨["ebase","emojimodifierbase"],[],
    "olHBiLBQEgsjVBcIDCBCDeNCCLVTDBEDBDHBBBYBhTCEBVBECgSDDFdFBQDJBLBwDBCBIIGBJKCDcEBcJCBCBBRDBNiVDbQJ",""⟩

def emojiPresentation : Property :=
  ⟨["emojipresentation","epres"],[],
    "nhQChXEDBCBuBCVCbYMbRBTBNBICRCFCIBFBVBHCBBEBCBHBECbCBbJBBBEDBBcJDYBOBbhBCbZBEBgplEBhUBhIBCKcXbABBYBUBCFBDVCgSbHMJ
      BcSBWMbREFMRDBDcTBBBhFCcLNEBYSBbACNBdIdHbWcSGBDDCDEELCHJiTMEBkXbVBKBhDeINDJHbUBHIOEJHJ",""⟩

def extendedPictographic : Property :=
  ⟨["extendedpictographic","extpict"],[],
    "gNBEBlyRBMBiIBWBdMGPCoDCMBdRBcSBZLEDhRBiXCKBJBcGEBGBMBeKKeOCL/CGBDBGBKCPBCBEBBBEDBBLFbTDJBOBOBoICrVDTCbZBEBbvUBMB
      xDBBBgmrMjWNDbFBcIGMCOBCKScFbBPKBUBCJBEJqSFmGIkGbWeYeMMdHbRMEcEIKGbOIbEdEMbVBKBqZjWbnI",""⟩

def extender : Property :=
  ⟨["ext","extender"],[],
    "hBBuQCbhUBqZBbhABbcYBeXBdnFBcEBxNBpIBcQBhkJBbRFdZCdPDbqbUBcgSBblABWBfHBeEBVCbfzVBdbKCemSBxSDbvJBbeoFCbtKCBBbqyACd
      bAD",""⟩

def graphemeExtend : Property :=
  ⟨["graphemeextend","grext"],[.mn,.me],
    "drYBYBnUBYBdYBYBjABSCdZBYBePBPBfbHBbvQBgcVCdaoKChlEBYBnGBMBjHBbiMBcrtSBIFbtlaZdS",""⟩

def hexDigit : Property :=
  ⟨["hex","hexdigit"],[],"bWKHGbAGdslLKHGbAG",""⟩

def idsBinaryOperator : Property :=
  ⟨["idsb","idsbinaryoperator"],[],"seACCI",""⟩

def idsTrinaryOperator : Property :=
  ⟨["idst","idstrinaryoperator"],[],"seCC",""⟩

def idContinue : Property :=
  ⟨["idc","idcontinue"],[.lu,.ll,.lt,.lm,.lo,.mn,.mc,.nd,.nl,.pc],"hBBbbRBgaJJclCBctHBVBfvWC","rmTB"⟩

def idStart : Property :=
  ⟨["ids","idstart"],[.lu,.ll,.lt,.lm,.lo,.nl],"jhLCdgJBVBfvWC","rmTB"⟩

def ideographic : Property :=
  ⟨["ideo","ideographic"],[],
    "seWCZJODblDjtOcMbfbKbhsIoCCeCbsiKBbBjcAIbvQbQJnuLpGbdeIclfCbGgdUGiOCinQOlbLepJuWcfYhhZFgfG",""⟩

def joinControl : Property :=
  ⟨["joinc","joincontrol"],[],"mdOC",""⟩

def logicalOrderException : Property :=
  ⟨["loe","logicalorderexception"],[],"fkIFeTFedSDCBccxMCCBBC",""⟩

def lowercase : Property :=
  ⟨["lower","lowercase"],[.ll],
    "gOBPBtHJHCbEFdSBcABfcZBepZcLNBbIbLbaNBNBQNiDQbgQbAcwOCbugKCiCBeZDDCbhIEJBbiwSBCDBbQBJddzHcK",""⟩

def math : Property :=
  ⟨["math"],[.sm],
    "dQBbhXDCBbACCCkqYBbBDLBbGEYCOCcNNEBDCEFSBEBCKBBDFGBDCCCBDBGDEFFcXFCEBCBCBBBFCCECESCCBBBHBBGClEEgMCBBYBRBrDCMJFFFC
      CCDFOBBBCGYCcFBBBbDEJCnECbFKpNWcLEbGCdclFBBBEBiDBBBdcoVdHBcTBCCBCCCEBMBBBHBcNBECIBHBbCBEBFBBDHBnCCZBZBbFBZBbFBZB
      bFBZBbFBZBICbYiiQEBbBBCBBCBBKBE/CGBEB/CBDBCBBCB/EBCBBCEBHBEBEBBBKBRFDBFBR",""⟩

def noncharacterCodePoint : Property :=
  ⟨["nchar","noncharactercodepoint"],[],
    "dsdCbGuGCdsyOCdsyOCdsyOCdsyOCdsyOCdsyOCdsyOCdsyOCdsyOCdsyOCdsyOCdsyOCdsyOCdsyOCdsyOCdsyOC",""⟩

def patternSyntax : Property :=
  ⟨["patsyn","patternsyntax"],[],"bHPKHbAEBBbAEbIHBBBCBBBCEBEBDBXBbFBluEYIPCTBKlTbbSgEyGbEbrOtSeYoVDEZPBczqZCkBC",""⟩

def patternWhiteSpace : Property :=
  ⟨["patternwhitespace","patws"],[],"JFSBdWBlyMCYC",""⟩

def quotationMark : Property :=
  ⟨["qmark","quotationmark"],[],"bIBEBfBBPBlwUIZCfiDBrPENDdabPEhHBEBdMC",""⟩

def radical : Property :=
  ⟨["radical"],[],"rpWbABdLMiG",""⟩

def regionalIndicator : Property :=
  ⟨["regionalindicator","ri"],[],"hgoKbA",""⟩

def sentenceTerminal : Property :=
  ⟨["sentenceterminal","sterm"],[],
    "bHBMBQBcaBBfRDgYBbRDjMBcJBBBDClHCcpWCbeKBECbdTBhQChWBFBmCCnQEgSCCCbDChGCcNCbkUCJDfgUBNBWCqNBbshWBkKCiTBDBoSCdICdR
      BfWCfRDfOCjPBbffIBDCgNBMBQBcNBedWCbxDFbSEhHCeNEeXDeZCGBQCdKCBCeEBqBCoJCFPeBCjPDtXBBBjRCdJCqECbaQCcWCbcmBCfDBcNCL
      BbgTBbdoGBliMB",""⟩

def softDotted : Property :=
  ⟨["sd","softdotted"],[],
    "eBChOBkVBbEBcABUBmIBdUBBBjmNBbZBNBDBfCBgBBqFBiGCegGBgelHCbYCbYCbYCbYCbYCbYCbYCbYCbYCbYCbYCbYCdfYBlTCbAB",""⟩

def terminalPunctuation : Property :=
  ⟨["term","terminalpunctuation"],[],
    "bHBKBBBLCDBbfYBIBtTBcFBcUBOBBDgYBbRLBBjBCcCPbFBkBCbwUCgQBEGlZCbeJIbdTBeUDcTCgBDDBbNECCmCCnQEgSCBDbDChGFcKCbkUCJDf
      gUBNBEBKBBCDCqMCbshVCkJDiTFoSCdICdRBfVDfRDeXBQCjPBbffGDBEgNBKBBBLCDBcNBCBbpQBbWBbsOBhRBlYCfWGcQGdLEbkQFbSEhHHeIE
      eXDeZCGBQCdKFeEBqBDMCnUEDPeBCjPDtXBBBjRCdJCECpYDbTByVCcWCbyXFbamZCfDBcNDKBbgSCbdoGBliLE",""⟩

def unifiedIdeograph : Property :=
  ⟨["uideo","unifiedideograph"],[],"tsAjtOcMbfbKbicSCBBBCKBBBBCCDdveCclfCbGgdUGiOCinQOlbLhqDhhZFgfG",""⟩

def uppercase : Property :=
  ⟨["upper","uppercase"],[.lu],"mqQQbgGbAgsiYbAGbAGbA",""⟩

def variationSelector : Property :=
  ⟨["variationselector","vs"],[],"jcTDBBdjcAQbwnkYjG",""⟩

def whiteSpace : Property :=
  ⟨["space","whitespace","wspace"],[],"JFSBdWBbABihJBdpNLbDCFBbVBfxWB",""⟩

def xidContinue : Property :=
  ⟨["xidc","xidcontinue"],[.lu,.ll,.lt,.lm,.lo,.mn,.mc,.nd,.nl,.pc],"hBBbbRBgaJJclCBctHBVB","biGBqeMBdacCGpQCeMB/H"⟩

def xidStart : Property :=
  ⟨["xids","xidstart"],[.lu,.ll,.lt,.lm,.lo,.nl],"jhLCdgJBVB","biGBebOBeXBlxZBdacCGpQCeMB/HlBC"⟩

def graphemeBase : Property :=
  ⟨["graphemebase","grbase"],[.lu,.ll,.lt,.lm,.lo,.mc,.nd,.nl,.no,.pc,.pd,.ps,.pe,.pi,.pf,.po,.sm,.sc,.sk,.so,.zs],"",
    "drYBYBnUBYBdYBYBjABSCdZBYBePBPBfbHBhyMCdaoKChlEBYBnGBMBjHBbiMBcrtSBIF"⟩

def all : List Property :=
  [alphabetic,asciiHexDigit,bidiControl,bidiMirrored,caseIgnorable,cased,dash,
    defaultIgnorableCodePoint,deprecated,diacritic,emoji,emojiComponent,emojiModifier,
    emojiModifierBase,emojiPresentation,extendedPictographic,extender,graphemeExtend,hexDigit,
    idsBinaryOperator,idsTrinaryOperator,idContinue,idStart,ideographic,joinControl,
    logicalOrderException,lowercase,math,noncharacterCodePoint,patternSyntax,patternWhiteSpace,
    quotationMark,radical,regionalIndicator,sentenceTerminal,softDotted,terminalPunctuation,
    unifiedIdeograph,uppercase,variationSelector,whiteSpace,xidContinue,xidStart,graphemeBase]

def named? (name : String) : Option CharSet :=
  (all.find? fun p => p.names.contains name).map points
end Property
end SchemaOrder.Unicode
