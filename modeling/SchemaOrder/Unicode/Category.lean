import SchemaOrder.Unicode.CharSet
namespace SchemaOrder.Unicode
-- General categories of characters. Each category lists its code points; unassigned code points are what remains.
inductive Category where
  | lu
  | ll
  | lt
  | lm
  | lo
  | mn
  | mc
  | me
  | nd
  | nl
  | no
  | pc
  | pd
  | ps
  | pe
  | pi
  | pf
  | po
  | sm
  | sc
  | sk
  | so
  | zs
  | zl
  | zp
  | cc
  | cf
  | co
  | cn
deriving DecidableEq
namespace Category
def luSet : CharSet := .ofText
  "cNbAdXXBHbHB/bBCB/HCB/WBC/CDCBBBCBDCEBCBDDCBC/CBCBBCBBCBDBBBCDBHBCBCBCB/HCB/ICBCBBD/bDHCBCCBBE/ElDBBBDBIBGBBDBBBCBR
    BJbJBCDDB/LFBCBBCCbZbWB/QJB/bABC/GCB/bVCbMehDbMBBFBbbUdIdgSbRCDmIB/cWJB/bWJIIGKIIIIGLB/DIIcUEMEMEMFLEkCBEBDDCDCBDF
    GB/CBECEKCFBcJBdzGbWbWBBDCB/CBEBBCBID/bXIBBBEBbtyJB/WTB/NfFB/GDB/bEKBBBBC/EEBBBCBBBDB/JBFBF/HBEBBGBFBBBbCBbhaHbAbu
    ZbOfGbKgALBPBHBCcqCbZenLbGbgjWbGbmmQbAbAbAbAbAbABBCCBCCCEBIbAbAbACBECIBHbBCBEBFBBDHbBbAbAbAbAbAbAbAbAbAbAbAbEZbHZb
    HZbHZbHZbHBgnLbI"

def llSet : CharSet := .ofText
  "dTbAcGBbPYBI/bBBC/HBC/XCBBBBDCBBBCBDCEBCBDDCBCB/CCBBCBBCBDBBBCCCDGBCBCB/HBC/IBCCBBBDB/bCBHCBCCBBEB/DBcRBbBhLBBBDBDD
    SBbBbJBCDD/LBFBBCBCCbZbW/RJB/bACB/FBC/bWbWbPehBbRCDbdGGdfUJePbScLNBbIdYB/cVBJ/bWBJIGKIIIIGKIIIIOCIIIIIIFBCGBDDBCIE
    CCIIKDBCkOBDCDBbBBEBEBCCIEEBcBBebBbWBBDC/DEBBCBGFB/bWBCHBBBEBMbMBBFBbtwDB/WTB/NfFB/FBD/bFBI/CCB/EEBBBCBBD/KFBFB/HE
    BBBGB/EbCBDBbfPbRFJHdCbeaIHMFboZbAbvHbOfGbKfZLBPBHBCcrBbZemFbGbgjWbGbmmKbAbAHBSbAbAbAEBBBHBLbAbAbAbAbAbAbAbAbAbAbA
    bAbAbAbAbAbAbCbCZBGbAZBGbAZBGbAZBGbAZBGBBcsYKBUGGduDbI"

def ltSet : CharSet := .ofText
  "rLBCBCBbMBlfHIIIIIMBPBbVB"

def lmSet : CharSet := .ofText
  "baMSEMOFHBBBfDBFBsKBiWBgICkJCEBbFBJBDBgEBgLBbvOBeXBvTBcpMBeDBxNBrWGgScLNBbIbLbaNBNBQNemXCjHBhJBsBBbRFFBdTCdPDbqbUBb
    wCGkKBeKBbCCeRJdCBXBeBDDCsBBWBfHBeEBVCdZEJBbfvIBbTCczOGBbQBJblrXEbqLNcMCBBygQEBHBCsgNcKhTHbkFBbrBB"

def loSet : CharSet := .ofText
  "gOBPBjWBEEiABbfVbBEEbTbGBKbJCBdVBBYCKDCBQBBbEbDdLLBYbHVWbQZHLFYBGRbPcHcCDBSBHKQPEICCCWBHBBDEDBQBNCBDOCKBIGECCWBHBCB
    CBCbFEBBTDQJBDBWBHBCBFDBSBPCXBLICCCWBHBCBFDBbECBDPBRBBGDDBEDCBBBCDCDDDMWBcAIBDBXBQDBbADCBCCbEBEIBDBXBKBFDBbFCBCPCR
    JBDBbPCBQBFDIDYGFSDYBJBBCHcGbWBCMGcHCBBBFBYBBBKBCJBCFXEbGBcLIBbKbBFeLbRUBQGEEDBDCHDENMBeJmRBECHBBBECbPBECbHBECHBBB
    ECPBcFBECcPbLQeJxWCRBbAFcXGIHSNTOSONBDPcAbOBcPbJBcBHFCbIBBFcSKbFbXbECFLbSEbAcCXJcBgUbVRIcCbENCKbSbAbKbPDKbEeJEBGBC
    DBbpQEenVcEYXJHBHBHBHBHBHBHBHvFBcBBEdIIBBdMEBFbRBdQRbGbWQtSjtOcMbfcFBbrZcPbOIkIEQKCcOBbXcSgNBdZBDHBDBEBXbDcAObYcKG
    DBBCLbCKXZbDHbVbTFCJKFBbPXDBIUQBGDBDbYBBDCCFCBBBYCDLHBOGCGCGJHBHfPbJbDqnSMXEbXmnCoCCeCcPBBKBNBFBBBCBCBeEbHnZScMCcC
    bOMeMFBfFeBKBbTCbFDGCGCGCDbJMBbABTBCBPCObIeToZbDDbXbVbGNUBIGbMKbECbKEIeYdAdUbOIcAgAlZJWKIfWGCBBbSBCDBCXKXJbFcNTBCK
    WKbAcScEGCcMBPEBDBbDbQbDDbDbJIBbCbBcCKWKTNSeGcVhBbKnKbQGCdAbDKBIWbQSbUVbBXMcBcFCCBNbTbGZbAbKbDBCBIbJDBMbWOEVBBBbJS
    BZTCcLHBBBEBPBKHbVbMICCCWBHBCBFDBSBMFgCcBSEUDbEbWUCBBhCbVbPEbKbWUBcHbRNBcTbBbLHhDbSiDICBCIBCBYPBBBdQICbNQBBBbCBKbO
    HBVBLbUTBScVkDJBbLRBbXbEeIHBCBbMVBZGBCBbGOBmPTPBBNBbIeUBdBbjMiWhOdxKdTPbpGRGfyVwLmuBvXHbFRdBRbESbWbZVFTbhWcXFBgTjc
    AIbvQbQJngHlFPBbDDCBOEIpGdkUeDFNDJHKnbCBtHbTbHBmJbESbSsQbBbdDHBEBCBPBhPbzNEBbBBCBBCBBKBE/CGBEB/CBDBCBBCB/EBCBBCEBH
    BEBEBBBKBRFDBFBRgoAclfCbGgdUGiOCinQOlbLepJuWcfYhhZFgfG"

def mnSet : CharSet := .ofText
  "bdOeIkPFkFbTBBBCBCBBcULbWVQBdXHCGCCBEbJBbEbBdNLcGJJBYEBJBDBFbRDcIIbQYBbGcDBBBEIEBDHKCbDBcGBEEIBUCbABCCcFBECECCDDBbE
    CDBLCcFBEFBCEBUCWGBBcGBCBBEIBHCLCbEBcJBMBbYBDBcDBBDFDBEHCLCbDBcGBCBGBFCUCbCCcFCEEIBUCbDBcUBHDBBdMBCHMIdUBCJLHcVCbB
    B/CcDOBFBCFLBbKJBdYEBGBCCCZCEDQENBCCGBPBbbBDbkKDbDCbECbECcMCBHIBCLJBbTDBBeNCbIBeODECJBGDiLCCBcGBBH/CCIGKCBbWOBQbXE
    bWBBFBBFBbOJMCbGECCBDcEBBCDBBDcGICCfWDBNBHEBGBDChQcMbbSNEBDMeoCDfLBdSbGvIEeDCbsqEBEKbGCdCCkMBDBEBZCFBfVCbASNBbMIZL
    bUDbWBCECCbNBcPGCCCCMBIBbVBbZBBDCCFCBBbQCIBjEBCBEBbdzSBbcJQQQblLBiSBfTFcmGDBCFEbODEBgJCwBEoXCdCDcSLbXEeTBcCPbPBCCK
    DbXECCHBcJDbKFBIcKBMCcAJKECBdRDCBBCGBCBgBBDIVCcFCDBbLHDFhNICDBBXBdGGBBECBCjEEGCBCbBCdHICBBCeCBBBCGBBdXDCEBFjZJBCjW
    CBBEBfOECCEBbGKbOGCEIBJGCDbUNBCpQHBGBBdEWCHBCBCeSGDBBCBHBBcUCDBBBnJCLCcAFFBBBhyRBGPurQFcHHboIBcLEdDBbdbKCgyZbUCXuY
    DRICHbEEfSDcyDcDEbYIBOBWFBPcaIHBRCHBCBFdWBgEHoLBcJEtOEbmEHeFHbtciVjG"

def mcSet : CharSet := .ofText
  "dkTBcDBCDIEBCbYCcGDGCCCKBbRBcGDcOBcGDIBBCcBCcGBBBGCCCKBdYCBCDDBDKBbPDcJEcJCcGBBFCCBCJCbCBOCcGDFDBDKBbQCcXDGISCmSCcL
    BgPCEBGBCCZCKDCHVCCGCBKDclSBbEBeZBHIBCnIECDECBGiQCcGBBBJBBCIGfPBbWBFBBFBCcJBbEBECCBcIBCDBBDCbWIICgPBVBhhECbtlBCCBd
    KCbYQfMCbVBbWCECCDeGCCCYBbTBBBeFBCCFBjDCBCBCBBblxJBBBeXBbTDECeLBYCcHBbWDJCNBdPDDCBBgODbFCcGCBECCCDJBKCiBDICDBeCDGB
    BECBjDDGECBeJDICBBeFBBCGBeBCEBkBDJBjNGBCEBCBBBfMDIEEBdGBbDCcKBpRBOBeCBHBCBiFFECBBnMCMBbWCICBBbeiHcDeACbkxNCGG"

def meSet : CharSet := .ofText
  "bsQCikQBciGEBDbyoXD"

def ndSet : CharSet := .ofText
  "bWKciOKfEKhQKpWKeOKeOKeOKeOKeOKeOKeOKeOKeOKdSKeOKcSKkSKcSKctQKbMKlOKeYKgKKGKhAKdIKfEKGKcaeOKbaCKbMKhQKWKdIKpQKbfmCK
    ccKKdfYKbfGKeYKcIKfOKkSKnEKeOKoKKdYKdYKqGKdYKbdEKjMKcSKqGKbckSKdIKfEKbpbWbYdnCKqGKtIKbqSKhbAK"

def nlSet : CharSet := .ofText
  "irUDdyTbJCEfmSBZJODbsyLKbifGcBrSBIBfEFmeSeH"

def noSet : CharSet := .ofText
  "gWCFBCDdmRGoMGeQDfDHiJHRJqRKbpLUbrVKsMBcmVBDGGKhQQbPBbbYcIdAWyGbEcbHBbtCEfIKbEIBPbGKbNPbsmIGbhqNbTcNERCnDbBbKEbzGIZ
    HbNJcXFWGgECCQCbUcMJcACbEDcXFeAIYIbPHmSGnObFgCKbQEeIHfEUoPUbzXCqOJbhNTbgTVbcpQHbeSXblyFUMUeEZibUJbjTcHBDBEcYbTBPbl
    AN"

def pcSet : CharSet := .ofText
  "dRBmbVCTBdgaOCYDjFB"

def pdSet : CharSet := .ofText
  "bTBcaUBbZBfkJBbnPBdbDGfhXBCBbFCEBbCBrEBTBeHBczwACbLBKBgNBfxVB"

def psSet : CharSet := .ofText
  "bOBbYBbFBfpEBBBcuOBdpMBDBbMBcDBPByKBBBbEBbpUB/GdCBbGB/EpOB/KcMBBBbHBboVB/DZBSB/DqMB/EDB/DCBczrTBiHBbDB/HDBRB/CgOBbY
    BbFBDBCB"

def peSet : CharSet := .ofText
  "bPBbZBbFBfpDBBBcuOBdrDBcDBPByKBBBbEBbpUB/GdCBbGB/EpOB/KcMBBBbHBboVB/DbSB/DqMB/EDB/DCCczrQBiJBbDB/HDBRB/CgOBbZBbFBCB
    CB"

def piSet : CharSet := .ofText
  "gPBlxKBCCCBZBffSBBBEBCBPBDB"

def pfSet : CharSet := .ofText
  "hFBlwVBDBbCBffSBBBEBCBPBDB"

def poSet : CharSet := .ofText
  "bHDBDCBBBBCKCDCbBBcQBFBOCHBbbABIBrYGbPBcCBCBCBbSCUCBCNBBDcWEdYBbROiZDcCPbFBkBCKBfKBeQBeRBpABMBoDBdMBKCgMPBBeIBcWFEC
    eHGgPBxOJbdTBeUDcTCgBDBDbLGBEmBCiICeYHBGgQHbCCeVEcHFcKCcMILBbgCCIIIJCECDDLBBBKeuCEBCeIBfNCEDCBCJBCBBCCKFBKCEBBBNCD
    qMDcFBhHBbryGCkJDdVBKBeLGoQEdICbODBBbXCbVBdTNQCeUEeWCQCjPBbfcUHCBWBUCCEDDBEHDGBBCfTDBDCBBBBCKCDCbBBbKBCCpUDzSBbWBp
    YBbcPBhRBbFBkMJbMBeIHcOHdLEbkQFbSEhHHeFCBEeWEbWCdBEEBNBBDdKGeDBqBFKCBBeABjQXeBDbCNcYBfADjSBkEDfZBdOIdFDBFdPKlZFbQC
    yVCcWNgTBbrSFejCCwdVCfDBcNFIBbgSEmPBbdbOBliLFfpYC"

def smSet : CharSet := .ofText
  "bRBQDcJBBBbTBEBbLBbFBbdMBuHDjyHBNBbNDNDfJBbNFGBcQFFCEBCBCBHBbFCCBBBbFkIbGCdMBbEZbOGsBBJBcCIeHBmYFCbFKQjWfBWcLEbGCjY
    bWVCGdasQBbfSBBDgIBQDcJBBBfBBGEddjGBZBbFBZBbFBZBbFBZBbFBZBiuEC"

def scSet : CharSet := .ofText
  "bKBeVEbwJBeTBtECtECHBjLBkDBwJBdqPBdiIbHbzhVBbgmLBeEBfYBiLCDCmcSEcvxEBdrKB"

def skSet : CharSet := .ofText
  "dQBBBcTBGBEBDBuBEMOFHBBBReNBOCbxIBiuMBBDLDNDNDNCghOCbsvRXJCdZCblOBOCbekKRbiHBBBgGBdolJF"

def soSet : CharSet := .ofText
  "gKBCBEBBBblPBkGCeXChYBKBTCjNBtVBoJBfAGBBfCBhZBbPBpBDPBBDCGUB/CfDIBGBCFEhPCbcYKbbVBbbUBgBbInPKJJccHCBEBCKBBCGG/DEBLC
    OBBCBBcGCJFCEBCBCBHBbFCCBBBbFkIIEUCHCdDBbEZbOGcRZLdDdAWhBBJBcCIeHBjObSbScMjWtSbWVCGbNCbGBeBiVGnTCbUbABdLMiGbAMIBNC
    MBVCGCmYCEKbGbKbCbFLbEIBPbGKbNPmIjtOcMbguIcDbhHEKCBBwBDbfjAQeXBbTDsQBDBECNCmBJcFRCDBNDBbVbTclUCwTBesSBdgNIERbcnIEF
    BbeuWBhcDeMcIjMKbNCcIFDWCHbEEcJVcODBhEdJbtXtScDEbYIBOBCcoUBehWBeZBbbTbSEdWMPCPBPBbLXgFcEbDNbSEJHCOGfYjRFbcAERDNDeP
    EdRGMEBPMEcEIKGbOIbECCdAnCMOCNDJHbUBHIOEJHJHfRBcD"

def zsSet : CharSet := .ofText
  "bGBeXBihJBdpNLbKBbVBfxWB"

def zlSet : CharSet := .ofText
  "meQB"

def zpSet : CharSet := .ofText
  "meRB"

def ccSet : CharSet := .ofText
  "AbGdRbH"

def cfSet : CharSet := .ofText
  "gRBcaKGWBhKBbXBoUCdCBftJBdaQFbAFbXFBKdghJBjPDgiZBPBnkKQbzqUEhwXIbtkzMBbEdS"

def coSet : CharSet := .ofText
  "dgvOjmEcahxOdsyOCdsyO"

def assigned : List Category :=
  [.lu,.ll,.lt,.lm,.lo,.mn,.mc,.me,.nd,.nl,.no,.pc,.pd,.ps,.pe,.pi,.pf,.po,.sm,.sc,.sk,.so,.zs,.zl,.zp,.cc,.cf,.co]

def listed : Category → CharSet
  | .lu => luSet
  | .ll => llSet
  | .lt => ltSet
  | .lm => lmSet
  | .lo => loSet
  | .mn => mnSet
  | .mc => mcSet
  | .me => meSet
  | .nd => ndSet
  | .nl => nlSet
  | .no => noSet
  | .pc => pcSet
  | .pd => pdSet
  | .ps => psSet
  | .pe => peSet
  | .pi => piSet
  | .pf => pfSet
  | .po => poSet
  | .sm => smSet
  | .sc => scSet
  | .sk => skSet
  | .so => soSet
  | .zs => zsSet
  | .zl => zlSet
  | .zp => zpSet
  | .cc => ccSet
  | .cf => cfSet
  | .co => coSet
  | .cn => []

def assignedSet : CharSet := .unionAll (assigned.map listed)

def unassignedSet : CharSet := assignedSet.negate

def set (c : Category) : CharSet :=
  match c with
  | .cn => unassignedSet
  | c => c.listed

-- The categories behind a name, which may stand for a group. Names are in lower case without separators.
def named? (name : String) : Option (List Category) :=
  match name with
  | "c" | "other" => some [.cc,.cf,.cn,.co]
  | "cc" | "cntrl" | "control" => some [.cc]
  | "cf" | "format" => some [.cf]
  | "cn" | "unassigned" => some [.cn]
  | "co" | "privateuse" => some [.co]
  | "l" | "letter" => some [.lu,.ll,.lt,.lm,.lo]
  | "casedletter" | "lc" => some [.lu,.ll,.lt]
  | "ll" | "lowercaseletter" => some [.ll]
  | "lm" | "modifierletter" => some [.lm]
  | "lo" | "otherletter" => some [.lo]
  | "lt" | "titlecaseletter" => some [.lt]
  | "lu" | "uppercaseletter" => some [.lu]
  | "combiningmark" | "m" | "mark" => some [.mn,.mc,.me]
  | "mc" | "spacingmark" => some [.mc]
  | "enclosingmark" | "me" => some [.me]
  | "mn" | "nonspacingmark" => some [.mn]
  | "n" | "number" => some [.nd,.nl,.no]
  | "decimalnumber" | "digit" | "nd" => some [.nd]
  | "letternumber" | "nl" => some [.nl]
  | "no" | "othernumber" => some [.no]
  | "p" | "punct" | "punctuation" => some [.pc,.pd,.ps,.pe,.pi,.pf,.po]
  | "connectorpunctuation" | "pc" => some [.pc]
  | "dashpunctuation" | "pd" => some [.pd]
  | "closepunctuation" | "pe" => some [.pe]
  | "finalpunctuation" | "pf" => some [.pf]
  | "initialpunctuation" | "pi" => some [.pi]
  | "otherpunctuation" | "po" => some [.po]
  | "openpunctuation" | "ps" => some [.ps]
  | "s" | "symbol" => some [.sm,.sc,.sk,.so]
  | "currencysymbol" | "sc" => some [.sc]
  | "modifiersymbol" | "sk" => some [.sk]
  | "mathsymbol" | "sm" => some [.sm]
  | "othersymbol" | "so" => some [.so]
  | "separator" | "z" => some [.zs,.zl,.zp]
  | "lineseparator" | "zl" => some [.zl]
  | "paragraphseparator" | "zp" => some [.zp]
  | "spaceseparator" | "zs" => some [.zs]
  | _ => none
end Category
end SchemaOrder.Unicode
